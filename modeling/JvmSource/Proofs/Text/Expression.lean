import JvmSource.Operation
import JvmSource.Proofs.Text.Token

/-!
# The text of an expression

Numbers and names stand for themselves. An operand is put in parentheses if it is an expression of
its own, and those of a shift always are. The text can be read in one way only
(`Expression.eq_of_text_eq`), whatever is nested in it.

A parser would have to find the parenthesis that matches; here nothing is counted. The induction is
over the expression, with whatever stands behind its text (`Expression.Readable`): the text of an
operand is over where a closing parenthesis stands, so the parenthesis that matches is found by the
hypothesis on the operand. What is left is to tell the forms apart:

* a number or a name holds no space and no parenthesis, and every other text holds a space;
* a negation begins with a sign in front of a space, and no left operand is only a sign;
* binary expressions and shifts have different operators, and between operands of which one can be
  read the operator is found.

Names are those that are made up from slots (`Text.IsMadeUp`). A name that is given by a table may
be anything, also the text of an expression, and nothing of the kind would hold of it.
-/

namespace JvmSource

/-- An arithmetic expression over constants and local variables. Operators are those of the
operations. -/
inductive Expression where
  | int (value : Int)
  | long (value : Int)
  | named (name : String)
  | negate (operand : Expression)
  | binary (operator : BinaryOperator) (left right : Expression)
  | shift (operator : ShiftOperator) (left right : Expression)
  deriving DecidableEq

/-- The name is one of those that are made up from the number of a slot. -/
def Text.IsMadeUp (name : String) : Prop :=
  ∃ slot, name = "arg" ++ decimal slot ∨ name = "var" ++ decimal slot

namespace Expression

/-- Whether the expression is a number or a name, which stands for itself as an operand. -/
def isAtom : Expression → Bool
  | int _ | long _ | named _ => true
  | negate _ | binary .. | shift .. => false

/-- A text as an operand: in parentheses, unless it is that of a number or a name. -/
def enclosed (atom : Bool) (cs : List Char) : List Char :=
  if atom then cs else '(' :: (cs ++ [')'])

/-- The text of an expression. Constants of type `long` end in a letter, so that they are known from
those of type `int`. -/
def text : Expression → List Char
  | int value => (Text.integer value).toList
  | long value => (Text.integer value).toList ++ ['L']
  | named name => name.toList
  | negate e => '-' :: ' ' :: enclosed e.isAtom e.text
  | binary operator left right => enclosed left.isAtom left.text ++
      ' ' :: (operator.symbol.toList ++ ' ' :: enclosed right.isAtom right.text)
  | shift operator left right => '(' :: (left.text ++
      ')' :: ' ' :: (operator.symbol.toList ++ ' ' :: '(' :: (right.text ++ [')'])))

/-- The text of an expression as an operand. -/
def operandText (e : Expression) : List Char :=
  enclosed e.isAtom e.text

/-- All names of the expression are made up. -/
def IsMadeUp : Expression → Prop
  | int _ | long _ => True
  | named name => Text.IsMadeUp name
  | negate e => e.IsMadeUp
  | binary _ left right | shift _ left right => left.IsMadeUp ∧ right.IsMadeUp

variable {e e' : Expression} {rest rest' : List Char}

/-! ### Numbers and names -/

/-- The characters that do not end a number, a name or an operator: all but the space and the
parentheses. -/
def isTokenChar (c : Char) : Bool :=
  c != ' ' && c != '(' && c != ')'

theorem isTokenChar_of_isAlphanum {c : Char} (h : c.isAlphanum = true) : isTokenChar c = true := by
  simp only [isTokenChar, Bool.and_eq_true, bne_iff_ne]
  refine ⟨⟨?_, ?_⟩, ?_⟩ <;> rintro rfl <;> revert h <;> decide

theorem isAlphanum_of_isDigit {c : Char} (h : c.isDigit = true) : c.isAlphanum = true := by
  rw [Char.isAlphanum, h, Bool.or_true]

/-- A made up name consists of letters and digits. -/
theorem isAlphanum_of_mem_isMadeUp {name : String} (h : Text.IsMadeUp name) {c : Char}
    (hc : c ∈ name.toList) : c.isAlphanum = true := by
  obtain ⟨slot, rfl | rfl⟩ := h
  all_goals
    rw [String.toList_append, List.mem_append] at hc
    rcases hc with hc | hc
    · exact List.all_eq_true.mp (by decide) c hc
    · exact isAlphanum_of_isDigit (Text.isDigit_of_mem_decimal hc)

theorem isTokenChar_of_mem_integer {n : Int} {c : Char} (h : c ∈ (Text.integer n).toList) :
    isTokenChar c = true := by
  rcases Text.mem_integer h with rfl | hdigit
  · decide
  · exact isTokenChar_of_isAlphanum (isAlphanum_of_isDigit hdigit)

/-- A number or a name is one token. -/
theorem isTokenChar_of_mem_text (hatom : e.isAtom = true) (he : e.IsMadeUp) :
    ∀ c ∈ e.text, isTokenChar c = true := by
  intro c hc
  cases e with
  | int value => exact isTokenChar_of_mem_integer hc
  | long value =>
    rcases List.mem_append.mp hc with hc | hc
    · exact isTokenChar_of_mem_integer hc
    · obtain rfl := List.mem_singleton.mp hc
      decide
  | named name => exact isTokenChar_of_isAlphanum (isAlphanum_of_mem_isMadeUp he hc)
  | negate | binary | shift => cases hatom

theorem r_mem_of_isMadeUp {name : String} (h : Text.IsMadeUp name) : 'r' ∈ (named name).text := by
  obtain ⟨slot, rfl | rfl⟩ := h <;> simp [text]

theorem r_notMem_int (n : Int) : 'r' ∉ (int n).text := fun h =>
  (Text.mem_integer h).elim (by decide) (by decide)

theorem L_notMem_int (n : Int) : 'L' ∉ (int n).text := fun h =>
  (Text.mem_integer h).elim (by decide) (by decide)

theorem L_mem_long (n : Int) : 'L' ∈ (long n).text :=
  List.mem_append_right _ (List.mem_singleton_self _)

theorem r_notMem_long (n : Int) : 'r' ∉ (long n).text := fun h =>
  (List.mem_append.mp h).elim (r_notMem_int n) (by decide)

/-- A number or a name is not empty, and not just a sign. -/
theorem exists_isAlphanum_mem_text (hatom : e.isAtom = true) (he : e.IsMadeUp) :
    ∃ c ∈ e.text, c.isAlphanum = true := by
  cases e with
  | int value =>
    obtain ⟨c, hc⟩ := List.exists_mem_of_ne_nil (Text.decimal value.natAbs).toList fun hnil =>
      Text.decimal_ne_empty _ (String.toList_injective hnil)
    refine ⟨c, ?_, isAlphanum_of_isDigit (Text.isDigit_of_mem_decimal hc)⟩
    by_cases hneg : value < 0
    · rw [text, Text.integer_of_neg hneg]
      exact List.mem_cons_of_mem _ hc
    · rwa [text, Text.integer_of_nonneg hneg]
  | long value => exact ⟨'L', L_mem_long value, by decide⟩
  | named name => exact ⟨'r', r_mem_of_isMadeUp he, by decide⟩
  | negate | binary | shift => cases hatom

/-- **A number or a name is known by its text.** An `L` is in no `int`, and every made up name has a
letter that is in no number. -/
theorem eq_of_text_eq_of_isAtom (hatom : e.isAtom = true) (hatom' : e'.isAtom = true)
    (he : e.IsMadeUp) (he' : e'.IsMadeUp) (h : e.text = e'.text) : e = e' := by
  have hmem (c : Char) : c ∈ e.text ↔ c ∈ e'.text := by rw [h]
  cases e with
  | negate | binary | shift => cases hatom
  | int m =>
    cases e' with
    | negate | binary | shift => cases hatom'
    | int n => rw [Text.integer_injective (String.toList_injective h)]
    | long n => exact absurd ((hmem 'L').mpr (L_mem_long n)) (L_notMem_int m)
    | named name => exact absurd ((hmem 'r').mpr (r_mem_of_isMadeUp he')) (r_notMem_int m)
  | long m =>
    cases e' with
    | negate | binary | shift => cases hatom'
    | int n => exact absurd ((hmem 'L').mp (L_mem_long m)) (L_notMem_int n)
    | long n =>
      have hnumbers := List.append_cancel_right h
      rw [Text.integer_injective (String.toList_injective hnumbers)]
    | named name => exact absurd ((hmem 'r').mpr (r_mem_of_isMadeUp he')) (r_notMem_long m)
  | named name =>
    cases e' with
    | negate | binary | shift => cases hatom'
    | int n => exact absurd ((hmem 'r').mp (r_mem_of_isMadeUp he)) (r_notMem_int n)
    | long n => exact absurd ((hmem 'r').mp (r_mem_of_isMadeUp he)) (r_notMem_long n)
    | named name' => rw [String.toList_injective h]

/-- An expression is a number or a name if and only if there is no space in it. -/
theorem space_notMem_text_iff (he : e.IsMadeUp) : ' ' ∉ e.text ↔ e.isAtom = true := by
  constructor
  · intro hspace
    cases e with
    | int | long | named => rfl
    | negate | binary | shift => simp [text] at hspace
  · intro hatom hspace
    exact absurd (isTokenChar_of_mem_text hatom he _ hspace) (by decide)

/-! ### Reading in one way -/

/-- The text is over, or a parenthesis closes. -/
def Ends (rest : List Char) : Prop :=
  Text.Stops (· != ')') rest

theorem ends_nil : Ends [] :=
  Text.stops_nil _

theorem ends_paren (rest : List Char) : Ends (')' :: rest) :=
  Text.stops_cons.mpr rfl

theorem Ends.stops (h : Ends rest) : Text.Stops isTokenChar rest := by
  intro c hc
  have hparen := h c hc
  rw [bne_eq_false_iff_eq] at hparen
  rw [hparen]
  decide

theorem stops_space (rest : List Char) : Text.Stops isTokenChar (' ' :: rest) :=
  Text.stops_cons.mpr rfl

/-- No other expression has a text that begins with that of `e` and ends there. This is stated for
all that may stand behind the two texts, so that it can be used of operands. -/
def Readable (e : Expression) : Prop :=
  ∀ ⦃e' : Expression⦄ ⦃rest rest' : List Char⦄, e'.IsMadeUp → Ends rest → Ends rest' →
    e.text ++ rest = e'.text ++ rest' → e = e' ∧ rest = rest'

theorem operandText_of_isAtom (h : e.isAtom = true) : e.operandText = e.text := by
  rw [operandText, h]
  rfl

theorem operandText_append_of_not_isAtom (h : ¬ e.isAtom = true) (rest : List Char) :
    e.operandText ++ rest = '(' :: (e.text ++ ')' :: rest) := by
  rw [operandText, enclosed, if_neg h]
  simp

/-- A number or a name does not begin with a parenthesis. -/
theorem text_append_ne_paren (hatom : e.isAtom = true) (he : e.IsMadeUp) (cs : List Char) :
    e.text ++ rest ≠ '(' :: cs := by
  intro h
  obtain ⟨c, hc, -⟩ := exists_isAlphanum_mem_text hatom he
  cases htext : e.text with
  | nil =>
    rw [htext] at hc
    cases hc
  | cons x xs =>
    rw [htext] at h
    obtain ⟨rfl, -⟩ := List.cons.inj h
    exact absurd (isTokenChar_of_mem_text hatom he '(' (htext ▸ List.mem_cons_self)) (by decide)

/-- A number or a name is not a sign in front of a space. -/
theorem text_append_ne_minus (hatom : e.isAtom = true) (he : e.IsMadeUp)
    (hrest : Text.Stops isTokenChar rest) (cs : List Char) : e.text ++ rest ≠ '-' :: ' ' :: cs := by
  intro h
  have hminus : ∀ c ∈ ['-'], isTokenChar c = true := List.all_eq_true.mp (by decide)
  obtain ⟨htext, -⟩ := Text.eq_of_append_eq (isTokenChar_of_mem_text hatom he) hminus hrest
    (stops_space cs) h
  obtain ⟨c, hc, halphanum⟩ := exists_isAlphanum_mem_text hatom he
  rw [htext, List.mem_singleton] at hc
  rw [hc] at halphanum
  cases halphanum

/-- **An operand is read in one way** if its expression is. It begins with a parenthesis exactly if
it is no number or name. -/
theorem Readable.operand (hread : e.Readable) (he : e.IsMadeUp) (he' : e'.IsMadeUp)
    (hrest : Text.Stops isTokenChar rest) (hrest' : Text.Stops isTokenChar rest')
    (h : e.operandText ++ rest = e'.operandText ++ rest') : e = e' ∧ rest = rest' := by
  by_cases hatom : e.isAtom = true <;> by_cases hatom' : e'.isAtom = true
  · rw [operandText_of_isAtom hatom, operandText_of_isAtom hatom'] at h
    obtain ⟨htext, hrests⟩ := Text.eq_of_append_eq (isTokenChar_of_mem_text hatom he)
      (isTokenChar_of_mem_text hatom' he') hrest hrest' h
    exact ⟨eq_of_text_eq_of_isAtom hatom hatom' he he' htext, hrests⟩
  · rw [operandText_of_isAtom hatom, operandText_append_of_not_isAtom hatom'] at h
    exact absurd h (text_append_ne_paren hatom he _)
  · rw [operandText_of_isAtom hatom', operandText_append_of_not_isAtom hatom] at h
    exact absurd h.symm (text_append_ne_paren hatom' he' _)
  · rw [operandText_append_of_not_isAtom hatom, operandText_append_of_not_isAtom hatom'] at h
    obtain ⟨heq, hrests⟩ := hread he' (ends_paren _) (ends_paren _) (List.cons.inj h).2
    exact ⟨heq, (List.cons.inj hrests).2⟩

/-! ### Operators -/

theorem isTokenChar_of_mem_binary (operator : BinaryOperator) :
    ∀ c ∈ operator.symbol.toList, isTokenChar c = true := by
  cases operator <;> exact List.all_eq_true.mp (by decide)

theorem isTokenChar_of_mem_shift (operator : ShiftOperator) :
    ∀ c ∈ operator.symbol.toList, isTokenChar c = true := by
  cases operator <;> exact List.all_eq_true.mp (by decide)

/-- No two binary operators have the same symbol. -/
theorem symbol_binary_injective {operator operator' : BinaryOperator}
    (h : operator.symbol.toList = operator'.symbol.toList) : operator = operator' := by
  revert h
  cases operator <;> cases operator' <;> decide

/-- No two shifts have the same symbol. -/
theorem symbol_shift_injective {operator operator' : ShiftOperator}
    (h : operator.symbol.toList = operator'.symbol.toList) : operator = operator' := by
  revert h
  cases operator <;> cases operator' <;> decide

/-- No binary operator has the symbol of a shift. -/
theorem symbol_binary_ne_shift (operator : BinaryOperator) (operator' : ShiftOperator) :
    operator.symbol.toList ≠ operator'.symbol.toList := by
  cases operator <;> cases operator' <;> decide

theorem text_negate_append (e : Expression) (rest : List Char) :
    (negate e).text ++ rest = '-' :: ' ' :: (e.operandText ++ rest) := rfl

theorem text_binary_append (operator : BinaryOperator) (left right : Expression)
    (rest : List Char) :
    (binary operator left right).text ++ rest = left.operandText ++
      ' ' :: (operator.symbol.toList ++ ' ' :: (right.operandText ++ rest)) := by
  simp [text, operandText]

theorem text_shift_append (operator : ShiftOperator) (left right : Expression) (rest : List Char) :
    (shift operator left right).text ++ rest = '(' :: (left.text ++
      ')' :: ' ' :: (operator.symbol.toList ++ ' ' :: '(' :: (right.text ++ ')' :: rest))) := by
  simp [text]

/-! ### The whole text -/

/-- An expression that is no number or name does not have the text of one. -/
theorem text_append_ne_of_isAtom (hatom : e.isAtom = true) (he : e.IsMadeUp)
    (hatom' : ¬ e'.isAtom = true) (he' : e'.IsMadeUp) (hrest : Ends rest) :
    e.text ++ rest ≠ e'.text ++ rest' := by
  intro h
  cases e' with
  | int | long | named => exact hatom' rfl
  | negate operand => exact text_append_ne_minus hatom he hrest.stops _ h
  | binary operator left right =>
    rw [text_binary_append] at h
    by_cases hleft : left.isAtom = true
    · -- the left operand is the token, but it goes on behind a space
      rw [operandText_of_isAtom hleft] at h
      obtain ⟨-, rfl⟩ := Text.eq_of_append_eq (isTokenChar_of_mem_text hatom he)
        (isTokenChar_of_mem_text hleft he'.1) hrest.stops (stops_space _) h
      cases hrest ' ' rfl
    · rw [operandText_append_of_not_isAtom hleft] at h
      exact text_append_ne_paren hatom he _ h
  | shift operator left right =>
    rw [text_shift_append] at h
    exact text_append_ne_paren hatom he _ h

/-- A negation is no binary expression: the left operand would be the sign. -/
theorem operandText_append_ne_minus (he : e.IsMadeUp) (cs cs' : List Char) :
    e.operandText ++ ' ' :: cs ≠ '-' :: ' ' :: cs' := by
  intro h
  by_cases hatom : e.isAtom = true
  · rw [operandText_of_isAtom hatom] at h
    exact text_append_ne_minus hatom he (stops_space cs) cs' h
  · rw [operandText_append_of_not_isAtom hatom] at h
    cases (List.cons.inj h).1

/-- A binary expression is no shift: up to the left operand they may agree, but no operator is the
same. -/
theorem binary_append_ne_shift {left left' : Expression} (hread : left.Readable ∨ left'.Readable)
    (he : left.IsMadeUp) (he' : left'.IsMadeUp) (operator : BinaryOperator)
    (operator' : ShiftOperator) (cs cs' : List Char) :
    left.operandText ++ ' ' :: (operator.symbol.toList ++ ' ' :: cs) ≠
      '(' :: (left'.text ++ ')' :: ' ' :: (operator'.symbol.toList ++ ' ' :: cs')) := by
  intro h
  by_cases hatom : left.isAtom = true
  · rw [operandText_of_isAtom hatom] at h
    exact text_append_ne_paren hatom he _ h
  · rw [operandText_append_of_not_isAtom hatom] at h
    have hlefts := (List.cons.inj h).2
    have hrests : operator.symbol.toList ++ ' ' :: cs = operator'.symbol.toList ++ ' ' :: cs' := by
      rcases hread with hread | hread
      · simpa using (hread he' (ends_paren _) (ends_paren _) hlefts).2
      · simpa using (hread he (ends_paren _) (ends_paren _) hlefts.symm).2.symm
    obtain ⟨hsymbol, -⟩ := Text.eq_of_append_eq (isTokenChar_of_mem_binary operator)
      (isTokenChar_of_mem_shift operator') (stops_space cs) (stops_space cs') hrests
    exact symbol_binary_ne_shift operator operator' hsymbol

theorem readable_of_isAtom (hatom : e.isAtom = true) (he : e.IsMadeUp) : e.Readable := by
  intro e' rest rest' he' hrest hrest' h
  by_cases hatom' : e'.isAtom = true
  · obtain ⟨htext, hrests⟩ := Text.eq_of_append_eq (isTokenChar_of_mem_text hatom he)
      (isTokenChar_of_mem_text hatom' he') hrest.stops hrest'.stops h
    exact ⟨eq_of_text_eq_of_isAtom hatom hatom' he he' htext, hrests⟩
  · exact absurd h (text_append_ne_of_isAtom hatom he hatom' he' hrest)

/-- A negation can be read in one way if its operand can. -/
theorem Readable.negate (hread : e.Readable) (he : e.IsMadeUp) : (negate e).Readable := by
  intro e' rest rest' he' hrest hrest' h
  cases e' with
  | int | long | named =>
    exact absurd h.symm (text_append_ne_of_isAtom rfl he' Bool.false_ne_true he hrest')
  | negate operand =>
    rw [text_negate_append, text_negate_append] at h
    simp only [List.cons.injEq, true_and] at h
    have hoperand : operand.IsMadeUp := he'
    obtain ⟨rfl, hrests⟩ := hread.operand he hoperand hrest.stops hrest'.stops h
    exact ⟨rfl, hrests⟩
  | binary operator left right =>
    rw [text_binary_append] at h
    exact absurd h.symm (operandText_append_ne_minus he'.1 _ _)
  | shift operator left right =>
    rw [text_negate_append, text_shift_append] at h
    cases (List.cons.inj h).1

/-- A binary expression can be read in one way if its operands can: the left one first, then the
operator, then the right one. -/
theorem Readable.binary {left right : Expression} (hleft : left.Readable) (hright : right.Readable)
    (operator : BinaryOperator) (he : (binary operator left right).IsMadeUp) :
    (binary operator left right).Readable := by
  intro e' rest rest' he' hrest hrest' h
  cases e' with
  | int | long | named =>
    exact absurd h.symm (text_append_ne_of_isAtom rfl he' Bool.false_ne_true he hrest')
  | negate operand =>
    rw [text_binary_append] at h
    exact absurd h (operandText_append_ne_minus he.1 _ _)
  | binary operator' left' right' =>
    rw [text_binary_append, text_binary_append] at h
    obtain ⟨rfl, hbehind⟩ := hleft.operand he.1 he'.1 (stops_space _) (stops_space _) h
    obtain ⟨hsymbol, hoperands⟩ := Text.eq_of_append_eq (isTokenChar_of_mem_binary operator)
      (isTokenChar_of_mem_binary operator') (stops_space _) (stops_space _)
      (List.cons.inj hbehind).2
    obtain rfl := symbol_binary_injective hsymbol
    obtain ⟨rfl, hrests⟩ := hright.operand he.2 he'.2 hrest.stops hrest'.stops
      (List.cons.inj hoperands).2
    exact ⟨rfl, hrests⟩
  | shift operator' left' right' =>
    rw [text_binary_append, text_shift_append] at h
    exact absurd h (binary_append_ne_shift (.inl hleft) he.1 he'.1 operator operator' _ _)

/-- A shift can be read in one way if its operands can. They are in parentheses in any case. -/
theorem Readable.shift {left right : Expression} (hleft : left.Readable) (hright : right.Readable)
    (operator : ShiftOperator) (he : (shift operator left right).IsMadeUp) :
    (shift operator left right).Readable := by
  intro e' rest rest' he' hrest hrest' h
  cases e' with
  | int | long | named =>
    exact absurd h.symm (text_append_ne_of_isAtom rfl he' Bool.false_ne_true he hrest')
  | negate operand =>
    rw [text_negate_append, text_shift_append] at h
    cases (List.cons.inj h).1
  | binary operator' left' right' =>
    rw [text_binary_append, text_shift_append] at h
    exact absurd h.symm (binary_append_ne_shift (.inr hleft) he'.1 he.1 operator' operator _ _)
  | shift operator' left' right' =>
    rw [text_shift_append, text_shift_append] at h
    obtain ⟨rfl, hbehind⟩ := hleft he'.1 (ends_paren _) (ends_paren _) (List.cons.inj h).2
    simp only [List.cons.injEq, true_and] at hbehind
    obtain ⟨hsymbol, hoperands⟩ := Text.eq_of_append_eq (isTokenChar_of_mem_shift operator)
      (isTokenChar_of_mem_shift operator') (stops_space _) (stops_space _) hbehind
    obtain rfl := symbol_shift_injective hsymbol
    simp only [List.cons.injEq, true_and] at hoperands
    obtain ⟨rfl, hrests⟩ := hright he'.2 (ends_paren _) (ends_paren _) hoperands
    exact ⟨rfl, (List.cons.inj hrests).2⟩

/-- **Every expression can be read in one way only.** The induction is on the expression. -/
theorem readable (he : e.IsMadeUp) : e.Readable := by
  induction e with
  | int | long | named => exact readable_of_isAtom rfl he
  | negate e ih => exact (ih he).negate he
  | binary operator left right ihl ihr => exact (ihl he.1).binary (ihr he.2) operator he
  | shift operator left right ihl ihr => exact (ihl he.1).shift (ihr he.2) operator he

/-- **An expression is known by its text.** -/
theorem eq_of_text_eq (he : e.IsMadeUp) (he' : e'.IsMadeUp) (h : e.text = e'.text) : e = e' :=
  (readable he he' ends_nil ends_nil (by rw [h])).1

end Expression

end JvmSource
