import ShaderLang.Proofs.Hlsl.Balance
/-!
# Scopes at the top level

A text is blanked just if its braces balance. It is then made up of characters outside all braces
and of scopes with balanced contents, and what is left of it is made up likewise: the characters
stay, and each scope is left as its two braces, with blanks of as many bytes as its content in
between. So a brace that is left opens a scope of the text, and the content of the scope stands in
the text where the blanks are.

## Main definitions

* `Hlsl.Balanced` — the braces of a text balance
* `Hlsl.Layout` — a text and what is left of it, as characters and scopes
* `Hlsl.Scope` — a scope of a text, with what is before it, in it and after it

## Main results

* `Hlsl.blankScopes?_eq_none_iff` — when a text is not blanked
* `Hlsl.layout_of_blankScopes?` — what is left of a text
* `Hlsl.Layout.exists_scope` — a brace that is left opens a scope of the text
* `Hlsl.Layout.blankScopes?_eq` — what is left is left as it is
-/

namespace ShaderLang.Hlsl

open Text (byteSize byteSize_append)

variable {depth k : Nat} {c : Char} {cs ds text top content after : List Char}

/-! ## Balanced texts -/

/-- The braces of a text balance: it closes as many as it opens, and up to no point of it more. -/
structure Balanced (text : List Char) : Prop where
  upTo : ∀ before, before <+: text → before.count '\x7d' ≤ before.count '\x7b'
  total : text.count '\x7b' = text.count '\x7d'

/-- More braces are closed than are open just if they are up to some point. -/
theorem nest?_eq_none_iff :
    nest? depth cs = none ↔
      ∃ before, before <+: cs ∧ depth + before.count '\x7b' < before.count '\x7d' := by
  constructor
  · intro h
    induction cs generalizing depth with
    | nil => cases h
    | cons c cs ih =>
      -- What is closed too much behind the character is so from the character on.
      have hfront {d : Nat} (hd : d + [c].count '\x7d' = depth + [c].count '\x7b')
          (hrest : nest? d cs = none) :
          ∃ before, before <+: c :: cs ∧
            depth + before.count '\x7b' < before.count '\x7d' := by
        obtain ⟨before, hbefore, hlt⟩ := ih hrest
        refine ⟨[c] ++ before, List.cons_prefix_cons.2 ⟨rfl, hbefore⟩, ?_⟩
        rw [List.count_append, List.count_append]
        omega
      by_cases hopen : c = '\x7b'
      · subst hopen
        exact hfront rfl (nest?_open ▸ h)
      · by_cases hclose : c = '\x7d'
        · subst hclose
          cases depth with
          | zero => exact ⟨['\x7d'], List.cons_prefix_cons.2 ⟨rfl, List.nil_prefix⟩, by decide⟩
          | succ depth => exact hfront rfl (nest?_close ▸ h)
        · refine hfront ?_ (nest?_cons_of_ne hopen hclose ▸ h)
          rw [List.count_singleton, List.count_singleton]
          simp [hopen, hclose]
  · rintro ⟨before, ⟨rest, rfl⟩, hlt⟩
    rw [nest?_append]
    cases hbefore : nest? depth before with
    | none => rfl
    | some open' =>
      have hcount := nest?_count hbefore
      omega

theorem balanced_iff : Balanced cs ↔ nest? 0 cs = some 0 := by
  constructor
  · rintro ⟨hupTo, htotal⟩
    cases hnest : nest? 0 cs with
    | none =>
      obtain ⟨before, hbefore, hlt⟩ := nest?_eq_none_iff.1 hnest
      have hle := hupTo before hbefore
      omega
    | some behind =>
      have hcount := nest?_count hnest
      obtain rfl : behind = 0 := by omega
      rfl
  · intro h
    refine ⟨fun before hbefore => ?_, by have hcount := nest?_count h; omega⟩
    have hsome : ¬ nest? 0 cs = none := by simp [h]
    have hle : ¬ 0 + before.count '\x7b' < before.count '\x7d' := fun hlt =>
      hsome (nest?_eq_none_iff.2 ⟨before, hbefore, hlt⟩)
    omega

/-- More braces that are open before a text are open behind it as well. -/
theorem nest?_add {behind : Nat} (h : nest? depth cs = some behind) (k : Nat) :
    nest? (depth + k) cs = some (behind + k) := by
  have hcount := nest?_count h
  cases hmore : nest? (depth + k) cs with
  | none =>
    obtain ⟨before, hbefore, hlt⟩ := nest?_eq_none_iff.1 hmore
    have hnone := nest?_eq_none_iff.2 ⟨before, hbefore, show depth + _ < _ by omega⟩
    rw [h] at hnone
    cases hnone
  | some behind' =>
    have hcount' := nest?_count hmore
    exact congrArg some (by omega)

/-- Braces around a balanced text. -/
theorem Balanced.braced (h : Balanced cs) : Balanced ('\x7b' :: (cs ++ ['\x7d'])) := by
  rw [balanced_iff, nest?_open, nest?_append, nest?_add (balanced_iff.1 h) 1]
  rfl

/-- A text is not blanked just if it closes more braces than it opens up to some point, or not as
many as it opens in all. -/
theorem blankScopes?_eq_none_iff :
    blankScopes? text = none ↔
      (∃ before, before <+: text ∧ before.count '\x7b' < before.count '\x7d') ∨
        text.count '\x7b' ≠ text.count '\x7d' := by
  rw [blankScopes?, ← Option.not_isSome_iff_eq_none, isSome_blankFrom?_iff, ← balanced_iff]
  constructor
  · intro h
    by_contra hneither
    push Not at hneither
    exact h ⟨hneither.1, hneither.2⟩
  · rintro (⟨before, hbefore, hlt⟩ | hne) h
    · exact Nat.not_le.2 hlt (h.upTo before hbefore)
    · exact hne h.total

/-- The brace that closes a scope stands behind the content of the scope. -/
theorem exists_content (h : nest? (k + 1) cs = some 0) :
    ∃ content after, cs = content ++ '\x7d' :: after ∧ nest? k content = some 0 ∧
      nest? 0 after = some 0 := by
  -- The content of the scope may be that of `k` further ones that are open.
  induction cs generalizing k with
  | nil => cases h
  | cons c cs ih =>
    by_cases hopen : c = '\x7b'
    · subst hopen
      obtain ⟨content, after, rfl, hcontent, hafter⟩ := ih (nest?_open ▸ h)
      exact ⟨'\x7b' :: content, after, rfl, nest?_open.trans hcontent, hafter⟩
    · by_cases hclose : c = '\x7d'
      · subst hclose
        rw [nest?_close] at h
        cases k with
        | zero => exact ⟨[], cs, rfl, rfl, h⟩
        | succ k =>
          obtain ⟨content, after, rfl, hcontent, hafter⟩ := ih h
          exact ⟨'\x7d' :: content, after, rfl, nest?_close.trans hcontent, hafter⟩
      · rw [nest?_cons_of_ne hopen hclose] at h
        obtain ⟨content, after, rfl, hcontent, hafter⟩ := ih h
        exact ⟨c :: content, after, rfl, (nest?_cons_of_ne hopen hclose).trans hcontent, hafter⟩

/-! ## What blanking does to a character -/

/-- The braces that are left are the outermost ones. -/
def leftBrace (depth : Nat) (c : Char) : Char := if depth = 0 then c else ' '

/-- What is left of a character that is no brace. -/
def leftChar (depth : Nat) (c : Char) : List Char := if c = '\n' ∨ depth = 0 then [c] else spaces c

theorem blankFrom?_open :
    blankFrom? depth ('\x7b' :: cs) =
      (blankFrom? (depth + 1) cs).map (leftBrace depth '\x7b' :: ·) := by
  rw [blankFrom?.eq_def]
  rfl

theorem blankFrom?_close :
    blankFrom? (depth + 1) ('\x7d' :: cs) =
      (blankFrom? depth cs).map (leftBrace depth '\x7d' :: ·) := by
  rw [blankFrom?.eq_def]
  rfl

theorem blankFrom?_cons_of_ne (hopen : c ≠ '\x7b') (hclose : c ≠ '\x7d') :
    blankFrom? depth (c :: cs) = (blankFrom? depth cs).map (leftChar depth c ++ ·) := by
  rw [blankFrom?.eq_def]
  simp only [if_neg hopen, if_neg hclose, leftChar]
  split <;> rfl

/-- What is left inside of a scope. -/
def AllSpaces (blanks : List Char) : Prop := ∀ x ∈ blanks, x = ' ' ∨ x = '\n'

theorem AllSpaces.not_mem {blanks : List Char} (h : AllSpaces blanks) {x : Char} (hspace : x ≠ ' ')
    (hbreak : x ≠ '\n') : x ∉ blanks :=
  fun hx => (h x hx).elim hspace hbreak

theorem allSpaces_leftChar (c : Char) : AllSpaces (leftChar (k + 1) c) := by
  intro x hx
  rw [leftChar] at hx
  split at hx
  · next hc =>
    obtain rfl := List.mem_singleton.1 hx
    exact .inr (hc.resolve_right (Nat.succ_ne_zero k))
  · exact .inl (List.mem_replicate.1 hx).2

theorem byteSize_leftChar (depth : Nat) (c : Char) : byteSize (leftChar depth c) = c.utf8Size := by
  rw [leftChar]
  split
  · rfl
  · exact byteSize_spaces c

/-- The content of a scope is left as blanks of as many bytes. -/
theorem blankFrom?_content (h : nest? k content = some 0) :
    ∃ blanks, AllSpaces blanks ∧ byteSize blanks = byteSize content ∧
      ∀ after, blankFrom? (k + 1) (content ++ '\x7d' :: after) =
        (blankFrom? 0 after).map (blanks ++ '\x7d' :: ·) := by
  induction content generalizing k with
  | nil =>
    obtain rfl : k = 0 := Option.some.inj h
    exact ⟨[], List.forall_mem_nil _, rfl, fun after => blankFrom?_close⟩
  | cons c cs ih =>
    -- What is left of the character stands in front of what is left of the rest.
    have hfront {k' : Nat} {front : List Char} (hrest : nest? k' cs = some 0)
        (hfront : AllSpaces front) (hsize : byteSize front = c.utf8Size)
        (hstep : ∀ ds, blankFrom? (k + 1) (c :: ds) = (blankFrom? (k' + 1) ds).map (front ++ ·)) :
        ∃ blanks, AllSpaces blanks ∧ byteSize blanks = byteSize (c :: cs) ∧
          ∀ after, blankFrom? (k + 1) (c :: cs ++ '\x7d' :: after) =
            (blankFrom? 0 after).map (blanks ++ '\x7d' :: ·) := by
      obtain ⟨blanks, hblanks, hbytes, hblank⟩ := ih hrest
      refine ⟨front ++ blanks, List.forall_mem_append.2 ⟨hfront, hblanks⟩, ?_, fun after => ?_⟩
      · rw [byteSize_append, hsize, hbytes, byteSize]
      · rw [List.cons_append, hstep, hblank, Option.map_map]
        simp only [Function.comp_def, List.append_assoc]
    have hspace : AllSpaces [' '] := List.forall_mem_singleton.2 (.inl rfl)
    by_cases hopen : c = '\x7b'
    · subst hopen
      exact hfront (nest?_open ▸ h) hspace rfl fun ds => blankFrom?_open
    · by_cases hclose : c = '\x7d'
      · subst hclose
        cases k with
        | zero => cases h
        | succ k => exact hfront (nest?_close ▸ h) hspace rfl fun ds => blankFrom?_close
      · exact hfront (nest?_cons_of_ne hopen hclose ▸ h) (allSpaces_leftChar c)
          (byteSize_leftChar _ c) fun ds => blankFrom?_cons_of_ne hopen hclose

/-! ## Texts as characters and scopes -/

/-- A text and what is left of it, as characters outside all braces and scopes with balanced
contents. -/
inductive Layout : List Char → List Char → Prop
  | done : Layout [] []
  | plain {c : Char} {text top : List Char} (hopen : c ≠ '\x7b') (hclose : c ≠ '\x7d')
      (h : Layout text top) : Layout (c :: text) (c :: top)
  | scope {content blanks text top : List Char} (hcontent : Balanced content)
      (hblanks : AllSpaces blanks) (hsize : byteSize blanks = byteSize content)
      (h : Layout text top) :
      Layout ('\x7b' :: (content ++ '\x7d' :: text)) ('\x7b' :: (blanks ++ '\x7d' :: top))

/-- A text that is blanked is made up of characters and scopes. -/
theorem layout_of_blankScopes? (h : blankScopes? text = some top) : Layout text top := by
  rw [blankScopes?] at h
  induction hn : text.length using Nat.strongRecOn generalizing text top with
  | ind n ih =>
    subst hn
    cases text with
    | nil =>
      cases h
      exact .done
    | cons c cs =>
      by_cases hopen : c = '\x7b'
      · subst hopen
        -- The text closes all it opens, hence this brace too, and goes on behind its partner.
        have hnest := isSome_blankFrom?_iff.1 (Option.isSome_of_eq_some h)
        obtain ⟨content, after, rfl, hcontent, -⟩ := exists_content (nest?_open ▸ hnest)
        obtain ⟨blanks, hblanks, hsize, hblank⟩ := blankFrom?_content hcontent
        rw [blankFrom?_open, hblank, Option.map_map] at h
        obtain ⟨rest, hrest, rfl⟩ := Option.map_eq_some_iff.1 h
        have hlt : after.length < ('\x7b' :: (content ++ '\x7d' :: after)).length := by
          simp
          omega
        exact .scope (balanced_iff.2 hcontent) hblanks hsize (ih _ hlt hrest rfl)
      · by_cases hclose : c = '\x7d'
        · subst hclose
          cases h
        · rw [blankFrom?_cons_of_ne hopen hclose, leftChar, if_pos (.inr rfl)] at h
          obtain ⟨rest, hrest, rfl⟩ := Option.map_eq_some_iff.1 h
          exact .plain hopen hclose (ih _ (Nat.lt_succ_self _) hrest rfl)

/-- Blanks in a scope stay. -/
theorem blankFrom?_allSpaces {blanks : List Char} (h : AllSpaces blanks) :
    blankFrom? 1 (blanks ++ '\x7d' :: after) = (blankFrom? 0 after).map (blanks ++ '\x7d' :: ·) := by
  induction blanks with
  | nil => exact blankFrom?_close
  | cons x blanks ih =>
    obtain ⟨hx, hblanks⟩ := List.forall_mem_cons.1 h
    have hleft : leftChar 1 x = [x] := by rcases hx with rfl | rfl <;> rfl
    have hopen : x ≠ '\x7b' := by rcases hx with rfl | rfl <;> decide
    have hclose : x ≠ '\x7d' := by rcases hx with rfl | rfl <;> decide
    rw [List.cons_append, blankFrom?_cons_of_ne hopen hclose, ih hblanks, Option.map_map, hleft]
    rfl

namespace Layout

theorem byteSize_eq (h : Layout text top) : byteSize top = byteSize text := by
  induction h with
  | done => rfl
  | plain _ _ _ ih => rw [byteSize, byteSize, ih]
  | scope _ _ hsize _ ih => simp only [byteSize, byteSize_append, hsize, ih]

/-- What is left is left as it is. -/
theorem blankScopes?_eq (h : Layout text top) : blankScopes? top = some top := by
  rw [blankScopes?]
  induction h with
  | done => rfl
  | plain hopen hclose _ ih =>
    rw [blankFrom?_cons_of_ne hopen hclose, ih, leftChar, if_pos (.inr rfl)]
    rfl
  | scope _ hblanks _ _ ih =>
    rw [blankFrom?_open, blankFrom?_allSpaces hblanks, ih]
    rfl

end Layout

/-! ## Scopes of a text -/

/-- A text has a scope at the top level, with a balanced content. -/
structure Scope (text before content after : List Char) : Prop where
  text_eq : text = before ++ '\x7b' :: (content ++ '\x7d' :: after)
  before : Balanced before
  content : Balanced content

namespace Scope

variable {before : List Char}

/-- The scope with a text in front. -/
theorem append_left (h : Scope text before content after) (hcs : Balanced cs) :
    Scope (cs ++ text) (cs ++ before) content after := by
  refine ⟨by rw [h.text_eq, List.append_assoc], ?_, h.content⟩
  rw [balanced_iff, nest?_append, balanced_iff.1 hcs]
  exact balanced_iff.1 h.before

/-- The content of a scope, by its offsets. -/
theorem slice_eq (h : Scope text before content after) :
    slice text (byteSize before + 1) (byteSize before + 1 + byteSize content) = content := by
  have hstart : byteSize before + 1 = byteSize (before ++ ['\x7b']) := by
    rw [byteSize_append]
    rfl
  have htext : text = before ++ ['\x7b'] ++ (content ++ '\x7d' :: after) := by
    rw [h.text_eq, List.append_assoc]
    rfl
  rw [slice, Nat.add_sub_cancel_left, hstart, htext, Text.dropBytes_byteSize_append,
    Text.takeBytes_byteSize_append]

end Scope

/-- A brace that is left opens a scope of the text. Blanks of as many bytes as the content of the
scope follow, and then the brace that closes it. -/
theorem Layout.exists_scope (h : Layout text top) {a r : List Char} (htop : top = a ++ '\x7b' :: r) :
    ∃ before content after blanks s, Scope text before content after ∧
      byteSize before = byteSize a ∧ r = blanks ++ '\x7d' :: s ∧ AllSpaces blanks ∧
      byteSize content = byteSize blanks := by
  induction h generalizing a with
  | done => simp at htop
  | @plain c text top hopen hclose h ih =>
    cases a with
    | nil => exact absurd (List.cons.inj htop).1 hopen
    | cons x a =>
      obtain ⟨rfl, hbehind⟩ := List.cons.inj htop
      obtain ⟨before, content, after, blanks, s, hscope, hbefore, hrest⟩ := ih hbehind
      have hc : Balanced [c] := balanced_iff.2 (nest?_cons_of_ne hopen hclose)
      refine ⟨c :: before, content, after, blanks, s, hscope.append_left hc, ?_, hrest⟩
      rw [byteSize, byteSize, hbefore]
  | @scope content blanks text top hcontent hblanks hsize h ih =>
    cases a with
    | nil =>
      obtain ⟨-, rfl⟩ := List.cons.inj htop
      exact ⟨[], content, text, blanks, top, ⟨rfl, balanced_iff.2 rfl, hcontent⟩, rfl, rfl, hblanks,
        hsize.symm⟩
    | cons x a =>
      obtain ⟨rfl, hbehind⟩ := List.cons.inj htop
      -- There is no brace among the blanks, so that the one that is left stands behind them.
      obtain ⟨a', rfl, hlater⟩ : ∃ a', a = blanks ++ '\x7d' :: a' ∧ top = a' ++ '\x7b' :: r := by
        rcases List.append_eq_append_iff.1 hbehind with ⟨e, rfl, he⟩ | ⟨e, rfl, he⟩
        · cases e with
          | nil => cases he
          | cons y e =>
            obtain ⟨rfl, htop'⟩ := List.cons.inj he
            exact ⟨e, rfl, htop'⟩
        · cases e with
          | nil => cases he
          | cons y e =>
            obtain ⟨rfl, -⟩ := List.cons.inj he
            exact absurd (List.mem_append_right a List.mem_cons_self)
              (hblanks.not_mem (by decide) (by decide))
      obtain ⟨before, content', after, blanks', s, hscope, hbefore, hrest⟩ := ih hlater
      refine ⟨'\x7b' :: (content ++ ['\x7d']) ++ before, content', after, blanks', s, ?_, ?_, hrest⟩
      · simpa using hscope.append_left hcontent.braced
      · simp [byteSize, hbefore, hsize]

end ShaderLang.Hlsl
