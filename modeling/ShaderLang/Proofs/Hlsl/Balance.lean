import ShaderLang.Hlsl.Reflect
import ShaderLang.Proofs.Hlsl.Comment
/-!
# Balanced program texts

A program text is reflected just if its braces balance once comments and directive lines have been
taken out. A directive line that opens as many braces as it closes makes no difference to that.

## Main definitions

* `Hlsl.nest?` — the braces that are open behind a text
* `Hlsl.EvenDirectives` — directive lines open as many braces as they close

## Main results

* `Hlsl.isSome_reflect?_iff` — when a program text is reflected
* `Pattern.flatMap_text_scan` — matches and the characters between them make up the text
* `Hlsl.isSome_reflect?_of_even` — even directive lines make no difference
-/

namespace ShaderLang

/-! ## Matches make up the text -/

theorem Cursor.textTo_append {c d : Cursor} (h : d ∈ c.points) : c.textTo d ++ d.rest = c.rest := by
  obtain ⟨u, hu⟩ := exists_spans_of_mem_points h
  rw [hu.textTo, hu.rest]

/-- The text of a piece. -/
def Piece.text : Piece → List Char
  | plain c => [c]
  | found m => m.text

namespace Pattern

/-- The matches in a text and the characters between them make it up. -/
theorem flatMap_text_scan (p : Pattern) (c : Cursor) :
    (p.scan c).flatMap Piece.text = c.rest := by
  induction c using p.scan_induction with
  | nil c hc =>
    rw [scan_of_nil hc, hc]
    rfl
  | plain c x xs hc hnone ih =>
    rw [scan_of_cons hnone hc, List.flatMap_cons, ih, hc]
    rfl
  | found c f hf hlt ih =>
    rw [scan_of_at? hf hlt, List.flatMap_cons, ih]
    exact Cursor.textTo_append (stop_mem_points hf)

end Pattern

namespace Hlsl

open Pattern

/-! ## Open braces -/

/-- The braces that are open behind a text where `depth` are open before it. There is no answer if
more are closed than are open. -/
def nest? : Nat → List Char → Option Nat
  | depth, [] => some depth
  | depth, c :: cs =>
    if c = '\x7b' then nest? (depth + 1) cs
    else if c = '\x7d' then (if depth = 0 then none else nest? (depth - 1) cs)
    else nest? depth cs

variable {depth : Nat} {c : Char} {cs ds : List Char}

@[simp] theorem nest?_open : nest? depth ('\x7b' :: cs) = nest? (depth + 1) cs := by
  rw [nest?, if_pos rfl]

@[simp] theorem nest?_close : nest? (depth + 1) ('\x7d' :: cs) = nest? depth cs := by
  rw [nest?, if_neg (by decide), if_pos rfl, if_neg (Nat.succ_ne_zero depth)]
  rfl

theorem nest?_cons_of_ne (hopen : c ≠ '\x7b') (hclose : c ≠ '\x7d') :
    nest? depth (c :: cs) = nest? depth cs := by
  rw [nest?, if_neg hopen, if_neg hclose]

theorem nest?_append : nest? depth (cs ++ ds) = (nest? depth cs).bind (nest? · ds) := by
  induction cs generalizing depth with
  | nil => rfl
  | cons c cs ih =>
    rw [List.cons_append, nest?, nest?]
    split
    · exact ih
    · split
      · split
        · rfl
        · exact ih
      · exact ih

/-- Braces are opened and closed one by one. -/
theorem nest?_count {after : Nat} (h : nest? depth cs = some after) :
    after + cs.count '\x7d' = depth + cs.count '\x7b' := by
  induction cs generalizing depth with
  | nil => cases h; rfl
  | cons c cs ih =>
    rw [nest?] at h
    split at h
    · next hc =>
      have hlater := ih h
      simp only [hc, List.count_cons]
      simp
      omega
    · next hopen =>
      split at h
      · next hc =>
        split at h
        · cases h
        · have hlater := ih h
          simp only [hc, List.count_cons]
          simp
          omega
      · next hclose =>
        have hlater := ih h
        simpa [List.count_cons, hopen, hclose] using hlater

theorem isSome_blankFrom?_iff : (blankFrom? depth cs).isSome ↔ nest? depth cs = some 0 := by
  induction cs generalizing depth with
  | nil =>
    rw [blankFrom?, nest?]
    split <;> simp_all
  | cons c cs ih =>
    rw [blankFrom?.eq_def, nest?]
    dsimp only
    split
    · rw [Option.isSome_map, ih]
    · split
      · cases depth with
        | zero => simp
        | succ depth =>
          rw [Option.isSome_map, ih, if_neg (Nat.succ_ne_zero depth)]
          rfl
      · split <;> rw [Option.isSome_map, ih]

/-! ## Program texts -/

/-- A program text is reflected just if its braces balance without comments and directive lines. -/
theorem isSome_reflect?_iff {code : String} {start : Nat} :
    (reflect? code start).isSome ↔ nest? 0 (uncommented code.toList) = some 0 := by
  rw [reflect?, Option.isSome_map, blankScopes?, isSome_blankFrom?_iff]

/-- Every match opens as many braces as it closes, so that without them the same are open. -/
theorem nest?_replace {p : Pattern} {text : List Char} {after : Nat}
    (heven : ∀ m ∈ p.findAll text, m.text.count '\x7b' = m.text.count '\x7d')
    (h : nest? depth text = some after) :
    nest? depth (p.replace (fun _ => []) text) = some after := by
  have htext := p.flatMap_text_scan (.start text)
  rw [show (Cursor.start text).rest = text from rfl] at htext
  rw [← htext] at h
  rw [findAll] at heven
  rw [replace]
  -- From here on only the pieces matter, which make up the text.
  generalize p.scan (.start text) = pieces at heven h
  clear htext
  induction pieces generalizing depth with
  | nil => exact h
  | cons piece pieces ih =>
    rw [List.flatMap_cons, nest?_append, Option.bind_eq_some_iff] at h
    obtain ⟨between, hpiece, hrest⟩ := h
    cases piece with
    | plain x =>
      have hlater := ih (by simpa using heven) hrest
      rw [List.flatMap_cons, nest?_append, Option.bind_eq_some_iff]
      exact ⟨between, hpiece, hlater⟩
    | found m =>
      have hm : m.text.count '\x7b' = m.text.count '\x7d' := heven m (by simp)
      -- The match is left out, and as many braces are open behind it as before it.
      have hcount := nest?_count hpiece
      rw [Piece.text, hm] at hcount
      obtain rfl : between = depth := by omega
      exact ih (fun m hm => heven m (by simp at hm ⊢; exact .inr hm)) hrest

/-- Every directive line of a program text opens as many braces as it closes. -/
def EvenDirectives (code : String) : Prop :=
  ∀ m ∈ directiveLine.findAll (comment.replace (fun _ => [' ']) code.toList),
    m.text.count '\x7b' = m.text.count '\x7d'

instance (code : String) : Decidable (EvenDirectives code) :=
  inferInstanceAs (Decidable (∀ m ∈ _, _))

/-- Even directive lines make no difference to whether the braces balance. -/
theorem isSome_reflect?_of_even {code : String} (heven : EvenDirectives code)
    (h : nest? 0 (withoutComments code.toList) = some 0) (start : Nat) :
    (reflect? code start).isSome := by
  rw [isSome_reflect?_iff, uncommented]
  exact nest?_replace heven (replace_comment _ ▸ h)

end Hlsl
end ShaderLang
