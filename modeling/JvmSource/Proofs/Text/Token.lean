import JvmSource.Proofs.Flow.Label

/-!
# Tokens of a text

A token is a run of characters of one class, and ends where a character of another class stands or
the text is over: so a text begins with only one token of a class (`Text.eq_of_append_eq`). A token
that is known to stop can be taken off the front of a text, and what is left is the same for all who
take it off. Nothing needs to be known of what follows but its first character.

Numbers are tokens. A number is known by its decimal text, with or without a sign in front
(`Text.integer_injective`, `Text.signedInteger_injective`), and there is nothing in that text but
digits and the sign.
-/

namespace JvmSource

namespace Text

/-! ### The end of a token -/

/-- The text does not go on with a character of the class: it is over, or its first character is of
another class. -/
def Stops (p : Char → Bool) (cs : List Char) : Prop :=
  ∀ c, cs.head? = some c → p c = false

theorem stops_nil (p : Char → Bool) : Stops p [] := by
  simp [Stops]

theorem stops_cons {p : Char → Bool} {c : Char} {cs : List Char} :
    Stops p (c :: cs) ↔ p c = false := by
  simp [Stops]

/-- **A token ends in one place.** If two texts that begin with a token are the same, the tokens
are, and so is what stands behind them. -/
theorem eq_of_append_eq {p : Char → Bool} {token token' rest rest' : List Char}
    (htoken : ∀ c ∈ token, p c = true) (htoken' : ∀ c ∈ token', p c = true) (hrest : Stops p rest)
    (hrest' : Stops p rest') (h : token ++ rest = token' ++ rest') :
    token = token' ∧ rest = rest' := by
  induction token generalizing token' with
  | nil =>
    cases token' with
    | nil => exact ⟨rfl, h⟩
    | cons c token' =>
      have hstop := hrest c (by rw [← List.nil_append rest, h]; rfl)
      rw [htoken' c List.mem_cons_self] at hstop
      cases hstop
  | cons c token ih =>
    obtain ⟨hc, htoken⟩ := List.forall_mem_cons.mp htoken
    cases token' with
    | nil =>
      have hstop := hrest' c (by rw [← List.nil_append rest', ← h]; rfl)
      rw [hc] at hstop
      cases hstop
    | cons c' token' =>
      obtain ⟨rfl, htail⟩ := List.cons.inj h
      obtain ⟨rfl, rfl⟩ := ih htoken (List.forall_mem_cons.mp htoken').2 htail
      exact ⟨rfl, rfl⟩

/-! ### Numbers -/

variable {m n : Int} {c : Char}

theorem decimal_ne_empty (n : Nat) : decimal n ≠ "" := by
  intro hempty
  have hdigits := congrArg String.toList hempty
  rw [decimal, String.toList_ofList] at hdigits
  exact Nat.toDigits_ne_nil hdigits

theorem integer_of_neg (h : n < 0) : (integer n).toList = '-' :: (decimal n.natAbs).toList := by
  rw [integer, if_pos h, String.toList_append]
  rfl

theorem integer_of_nonneg (h : ¬ n < 0) : integer n = decimal n.natAbs := by
  rw [integer, if_neg h]

/-- A number with a sign in any case: its sign, and then the digits of its absolute value. -/
theorem toList_signedInteger (n : Int) :
    (signedInteger n).toList = (if n < 0 then '-' else '+') :: (decimal n.natAbs).toList := by
  rw [signedInteger]
  split <;> rw [String.toList_append] <;> rfl

/-- There is nothing in the text of a number but digits, and a minus sign. -/
theorem mem_integer (h : c ∈ (integer n).toList) : c = '-' ∨ c.isDigit = true := by
  by_cases hn : n < 0
  · rw [integer_of_neg hn, List.mem_cons] at h
    exact h.imp_right isDigit_of_mem_decimal
  · rw [integer_of_nonneg hn] at h
    exact .inr (isDigit_of_mem_decimal h)

theorem mem_signedInteger (h : c ∈ (signedInteger n).toList) :
    c = '-' ∨ c = '+' ∨ c.isDigit = true := by
  rw [toList_signedInteger, List.mem_cons] at h
  rcases h with rfl | h
  · split <;> simp
  · exact .inr (.inr (isDigit_of_mem_decimal h))

/-- Digits do not begin with a sign. -/
theorem decimal_ne_cons_minus (n : Nat) (cs : List Char) : (decimal n).toList ≠ '-' :: cs := by
  intro heq
  exact absurd (isDigit_of_mem_decimal (heq ▸ List.mem_cons_self)) (by decide)

/-- **A number is known by its text.** A text with a minus sign is of no number without one. -/
theorem integer_injective (h : integer m = integer n) : m = n := by
  have hlist := congrArg String.toList h
  by_cases hm : m < 0 <;> by_cases hn : n < 0
  · rw [integer_of_neg hm, integer_of_neg hn, List.cons.injEq, String.toList_inj] at hlist
    have := decimal_injective hlist.2
    omega
  · rw [integer_of_neg hm, integer_of_nonneg hn] at hlist
    exact absurd hlist.symm (decimal_ne_cons_minus _ _)
  · rw [integer_of_neg hn, integer_of_nonneg hm] at hlist
    exact absurd hlist (decimal_ne_cons_minus _ _)
  · rw [integer_of_nonneg hm, integer_of_nonneg hn] at h
    have := decimal_injective h
    omega

/-- A number is known by its text with a sign, too. -/
theorem signedInteger_injective (h : signedInteger m = signedInteger n) : m = n := by
  have hlist := congrArg String.toList h
  rw [toList_signedInteger, toList_signedInteger, List.cons.injEq, String.toList_inj] at hlist
  have hdigits := decimal_injective hlist.2
  have hsign := hlist.1
  split at hsign <;> split at hsign <;> simp at hsign <;> omega

end Text

end JvmSource
