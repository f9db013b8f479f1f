import Mathlib.Data.List.Infix
import JvmSource.Text.Replace

/-!
# Replacing the first occurrence of a phrase

Where a text is put together from parts, the first occurrence is found by going through the parts in
order. There are three kinds of parts:

* a part that holds none of the phrase's first character is passed over
  (`replaceFirstIn_append_of_head_notMem`);
* a part that holds the phrase is where the replacement happens (`replaceFirstIn_append_of_infix`);
* a part that does not hold the phrase is passed over if it is followed by a character that the
  phrase does not hold (`replaceFirstIn_append_of_not_infix`).

In the last case the character that follows is needed: without it the phrase might begin in the one
part and end in the next. All inductions are on the part in front.
-/

namespace JvmSource

namespace Text

variable {phrase replacement xs ys : List Char}

/-- The phrase right at the beginning of a text is replaced, and nothing behind it. -/
theorem replaceFirstIn_append_self (hphrase : phrase ≠ []) :
    replaceFirstIn phrase replacement (phrase ++ ys) = replacement ++ ys := by
  obtain ⟨c, cs, rfl⟩ := List.exists_cons_of_ne_nil hphrase
  rw [List.cons_append, replaceFirstIn, if_pos (by simp), ← List.cons_append, List.drop_left]

/-- No occurrence begins in a part without the phrase's first character. -/
theorem replaceFirstIn_append_of_head_notMem {c : Char} {cs : List Char} (h : c ∉ xs) :
    replaceFirstIn (c :: cs) replacement (xs ++ ys) =
      xs ++ replaceFirstIn (c :: cs) replacement ys := by
  induction xs with
  | nil => rfl
  | cons x xs ih =>
    obtain ⟨hx, hxs⟩ := not_or.mp (mt List.mem_cons.mpr h)
    rw [List.cons_append, replaceFirstIn, if_neg, ih hxs, List.cons_append]
    simp [hx]

/-- A part that holds the phrase holds its first occurrence, so what follows the part stays as it
is. -/
theorem replaceFirstIn_append_of_infix (h : phrase <:+: xs) :
    replaceFirstIn phrase replacement (xs ++ ys) = replaceFirstIn phrase replacement xs ++ ys := by
  induction xs with
  | nil =>
    obtain rfl := List.infix_nil.mp h
    cases ys <;> simp [replaceFirstIn]
  | cons x xs ih =>
    rw [List.cons_append, replaceFirstIn, replaceFirstIn, ← List.cons_append]
    by_cases hfront : phrase <+: x :: xs
    · have hlonger := hfront.trans (List.prefix_append _ ys)
      rw [if_pos (List.isPrefixOf_iff_prefix.mpr hlonger),
        if_pos (List.isPrefixOf_iff_prefix.mpr hfront),
        List.drop_append_of_le_length hfront.length_le, List.append_assoc]
    · -- an occurrence behind the front is no longer than what is left
      have hrest := (List.infix_cons_iff.mp h).resolve_left hfront
      have hnot : ¬ phrase <+: x :: xs ++ ys := by
        intro hlonger
        refine hfront (List.prefix_of_prefix_length_le hlonger (List.prefix_append _ ys) ?_)
        exact Nat.le_succ_of_le hrest.length_le
      rw [if_neg (mt List.isPrefixOf_iff_prefix.mp hnot),
        if_neg (mt List.isPrefixOf_iff_prefix.mp hfront), ih hrest, List.cons_append]

/-- A phrase cannot reach behind a character that it does not hold. -/
private theorem prefix_of_prefix_append_cons {c : Char} (hc : c ∉ phrase)
    (h : phrase <+: xs ++ c :: ys) : phrase <+: xs := by
  rcases List.prefix_or_prefix_of_prefix h (List.prefix_append xs (c :: ys)) with hshort | hlong
  · exact hshort
  · -- a longer phrase goes on with the character
    obtain ⟨ts, rfl⟩ := hlong
    rcases List.prefix_cons_iff.mp ((List.prefix_append_right_inj xs).mp h) with rfl | ⟨_, rfl, -⟩
    · rw [List.append_nil]
    · exact absurd (List.mem_append_right xs List.mem_cons_self) hc

/-- A part without the phrase is passed over, if the phrase cannot reach behind it. -/
theorem replaceFirstIn_append_of_not_infix {c : Char} (h : ¬ phrase <:+: xs) (hc : c ∉ phrase) :
    replaceFirstIn phrase replacement (xs ++ c :: ys) =
      xs ++ c :: replaceFirstIn phrase replacement ys := by
  induction xs with
  | nil =>
    rw [List.nil_append, replaceFirstIn, if_neg, List.nil_append]
    intro hfront
    have hfront : phrase <+: [] ++ c :: ys := List.isPrefixOf_iff_prefix.mp hfront
    exact h (prefix_of_prefix_append_cons hc hfront).isInfix
  | cons x xs ih =>
    rw [List.cons_append, replaceFirstIn, if_neg, ih (fun hrest => h (List.infix_cons hrest)),
      List.cons_append]
    intro hfront
    exact h (prefix_of_prefix_append_cons hc (List.isPrefixOf_iff_prefix.mp hfront)).isInfix

end Text

end JvmSource
