import JvmSource.Flow.Label

/-!
# The names of labels

No two labels have the same text: the digits give the number, and what stands before them the kind
(`Label.text_injective`). A loop has the number of the label at its start, so it is the kind that
tells the name of the loop from that label.

That a number is known by its decimal text is proved here, too, and used wherever names are made up
from numbers.
-/

namespace JvmSource

/-- A natural number is known by its decimal text. -/
theorem Text.decimal_injective {m n : Nat} (h : Text.decimal m = Text.decimal n) : m = n := by
  have hdigits : Nat.toDigits 10 m = Nat.toDigits 10 n := String.ofList_injective h
  rw [← Nat.ofDigitChars_ten_toDigits (n := m), hdigits, Nat.ofDigitChars_ten_toDigits]

/-- A decimal is made of digits only. -/
theorem Text.isDigit_of_mem_decimal {n : Nat} {c : Char} (h : c ∈ (Text.decimal n).toList) :
    c.isDigit = true := by
  rw [decimal, String.toList_ofList] at h
  exact Nat.isDigit_of_mem_toDigits (by decide) (by decide) h

/-- **A label is known by its text.** -/
theorem Label.text_injective {a b : Label} (h : a.text = b.text) : a = b := by
  rcases a with ⟨m, kind⟩
  rcases b with ⟨n, kind'⟩
  have hlist := congrArg String.toList h
  have hsame : ∀ {i j}, (Text.decimal i).toList = (Text.decimal j).toList → i = j := fun h =>
    Text.decimal_injective (String.toList_injective h)
  -- the name of a branch goes on with a digit where that of a loop has a letter
  have hdigit : ∀ {i cs}, (Text.decimal i).toList ≠ 'O' :: cs := fun heq =>
    absurd (Text.isDigit_of_mem_decimal (heq ▸ List.mem_cons_self)) (by decide)
  cases kind <;> cases kind' <;> simp [text] at hlist
  · rw [hsame hlist]
  · exact absurd hlist hdigit
  · rw [hsame hlist]
  · exact absurd hlist.symm hdigit
  · rw [hsame hlist]

end JvmSource
