import JvmSource.Text.Lines
import JvmSource.Value

/-!
# Reading string literals

A literal is read from left to right: it ends at the first quote that is not escaped
(`Quoted.closing?`), and what stands between its quotes is decoded escape by escape
(`Quoted.unescape?`). These are the rules of the language for literals, written down without regard
to how literals are made here; `Quoted.read?` puts the two together.

Each character of a constant is written as itself, as a backslash and a letter, or as a backslash,
`u` and four digits (`Quoted.Escape`), and each of these is read back whatever stands behind it.
Three facts are proved for one written character: it is decoded to itself, it does not end the
literal, and no control stands in it. By induction on the constant they carry over to whole
literals, also in the middle of other text.

A literal in a longer text is a word without a line feed. The last part is about any such word: it
stands whole on one line, and with another word in its place the text has as many lines. What is
proved of constants in the end is `quote_decodable`.
-/

namespace JvmSource

namespace Text

namespace Quoted

/-! ### The rules of a literal -/

/-- The value of a hexadecimal digit, in upper or lower case. Any other character has none. -/
def hexValue? (c : Char) : Option Nat :=
  if '0'.toNat ≤ c.toNat ∧ c.toNat ≤ '9'.toNat then some (c.toNat - '0'.toNat)
  else if 'a'.toNat ≤ c.toNat ∧ c.toNat ≤ 'f'.toNat then some (c.toNat - 'a'.toNat + 10)
  else if 'A'.toNat ≤ c.toNat ∧ c.toNat ≤ 'F'.toNat then some (c.toNat - 'A'.toNat + 10)
  else none

/-- The character whose code the hexadecimal digits spell. Digits that spell no code have none. -/
def ofHex? (digits : List Char) : Option Char := do
  let code ← digits.foldlM (fun n c => (hexValue? c).map (16 * n + ·)) 0
  if code.isValidChar then some (Char.ofNat code) else none

/-- The character that a letter behind a backslash stands for. These are the letters that are used
here; the language has more. -/
def ofLetter? : Char → Option Char
  | '"' => some '"'
  | '\\' => some '\\'
  | 'n' => some '\n'
  | 'r' => some '\r'
  | 't' => some '\t'
  | _ => none

/-- Decodes the text between the quotes of a literal. A quote that is not escaped and a backslash
that begins no escape have no meaning there. -/
def unescape? : List Char → Option (List Char)
  | [] => some []
  | '\\' :: 'u' :: a :: b :: c :: d :: rest => do
    return (← ofHex? [a, b, c, d]) :: (← unescape? rest)
  | '\\' :: letter :: rest => do return (← ofLetter? letter) :: (← unescape? rest)
  | c :: rest => if c = '"' ∨ c = '\\' then none else (unescape? rest).map (c :: ·)

/-- The position of the first quote that is not escaped: a backslash takes the character behind it
along. -/
def closing? : List Char → Option Nat
  | [] => none
  | '\\' :: _ :: rest => (closing? rest).map (· + 2)
  | c :: rest => if c = '"' then some 0 else (closing? rest).map (· + 1)

theorem closing?_quote (rest : List Char) : closing? ('"' :: rest) = some 0 := by
  rw [closing?] <;> simp

theorem closing?_cons {c : Char} (hquote : c ≠ '"') (hbackslash : c ≠ '\\') (rest : List Char) :
    closing? (c :: rest) = (closing? rest).map (· + 1) := by
  rw [closing?]
  · exact if_neg hquote
  · simp [hbackslash]

/-- Reads a literal off the front of a text, and returns the constant and what follows. A text that
does not begin with a quote, or whose quote is not closed, has no literal there. -/
def read? : List Char → Option (String × List Char)
  | '"' :: rest => do
    let n ← closing? rest
    return (String.ofList (← unescape? (rest.take n)), rest.drop (n + 1))
  | _ => none

/-! ### Characters -/

/-- How a character may be written in a literal: plainly, by a letter, or by the digits of its
code. -/
inductive Escape (c : Char) : List Char → Prop where
  | plain (hquote : c ≠ '"') (hbackslash : c ≠ '\\') (hc : 0x20 ≤ c.toNat) : Escape c [c]
  | letter {e : Char} (hu : e ≠ 'u') (he : ofLetter? e = some c) : Escape c ['\\', e]
  | hex {a b d e : Char} (hcode : ofHex? [a, b, d, e] = some c)
    (hdigits : ∀ x ∈ [a, b, d, e], (hexValue? x).isSome = true) : Escape c ['\\', 'u', a, b, d, e]

/-- The four digits of a control spell it. There are 32 of them, and they are tried one by one. -/
private theorem hexDigits_control : ∀ n < 0x20, hexDigits 4 n =
      ['0', '0', Nat.digitChar (n / 16), Nat.digitChar (n % 16)] ∧
    ofHex? (hexDigits 4 n) = some (Char.ofNat n) ∧
    ((hexDigits 4 n).all fun x => (hexValue? x).isSome) = true := by
  decide

/-- **Each character is written in one of these ways.** -/
theorem escape_spec (c : Char) : Escape c (escape c) := by
  have hletter {e : Char} (hu : e ≠ 'u') {x : Char} (he : ofLetter? e = some x) (hc : c = x) :
      Escape c ['\\', e] := .letter hu (hc ▸ he)
  rw [escape]
  split
  · next hc => exact hletter (by decide) rfl hc
  split
  · next hc => exact hletter (by decide) rfl hc
  split
  · next hc => exact hletter (by decide) rfl hc
  split
  · next hc => exact hletter (by decide) rfl hc
  split
  · next hc => exact hletter (by decide) rfl hc
  split
  · next h =>
    obtain ⟨hshape, hcode, hdigits⟩ := hexDigits_control c.toNat h
    rw [hshape] at hcode hdigits ⊢
    exact .hex (by rw [hcode, Char.ofNat_toNat]) (List.all_eq_true.mp hdigits)
  · next hquote hbackslash _ _ _ h => exact .plain hquote hbackslash (Nat.le_of_not_lt h)

theorem hexValue?_quote : hexValue? '"' = none := by decide

theorem hexValue?_backslash : hexValue? '\\' = none := by decide

theorem le_toNat_of_hexValue? {c : Char} (h : (hexValue? c).isSome = true) : 0x20 ≤ c.toNat := by
  have hle {a : Char} (ha : 0x20 ≤ a.toNat) (hac : a.toNat ≤ c.toNat) : 0x20 ≤ c.toNat :=
    Nat.le_trans ha hac
  rw [hexValue?] at h
  split at h
  · next hc => exact hle (by decide) hc.1
  split at h
  · next hc => exact hle (by decide) hc.1
  split at h
  · next hc => exact hle (by decide) hc.1
  · cases h

theorem le_toNat_of_ofLetter? {c e : Char} (h : ofLetter? e = some c) : 0x20 ≤ e.toNat := by
  unfold ofLetter? at h
  split at h
  · decide
  · decide
  · decide
  · decide
  · decide
  · cases h

section

variable {c : Char} {written : List Char} (h : Escape c written)
include h

/-- A written character is decoded to itself, whatever stands behind it. -/
theorem unescape?_append (rest : List Char) :
    unescape? (written ++ rest) = (unescape? rest).map (c :: ·) := by
  cases h with
  | plain hquote hbackslash hc => simp [unescape?, hquote, hbackslash]
  | letter hu he => cases hrest : unescape? rest <;> simp [unescape?, hu, he, hrest]
  | hex hcode hdigits => cases hrest : unescape? rest <;> simp [unescape?, hcode, hrest]

/-- No quote of a written character ends the literal. -/
theorem closing?_append (rest : List Char) :
    closing? (written ++ rest) = (closing? rest).map (· + written.length) := by
  cases h with
  | plain hquote hbackslash hc => exact closing?_cons hquote hbackslash rest
  | letter hu he => simp [closing?]
  | hex hcode hdigits =>
    have hne {x : Char} (hx : (hexValue? x).isSome = true) : x ≠ '"' ∧ x ≠ '\\' := by
      constructor <;> rintro rfl <;> simp [hexValue?_quote, hexValue?_backslash] at hx
    simp only [List.forall_mem_cons] at hdigits
    obtain ⟨ha, hb, hd, he, -⟩ := hdigits
    simp [closing?, closing?_cons, hne ha, hne hb, hne hd, hne he, Function.comp_def]

/-- A character is not written with a control. -/
theorem le_toNat_of_mem {x : Char} (hx : x ∈ written) : 0x20 ≤ x.toNat := by
  cases h with
  | plain hquote hbackslash hc => rwa [List.mem_singleton.mp hx]
  | letter hu he =>
    rcases List.mem_cons.mp hx with rfl | hx
    · decide
    · rw [List.mem_singleton.mp hx]
      exact le_toNat_of_ofLetter? he
  | hex hcode hdigits =>
    rcases List.mem_cons.mp hx with rfl | hx
    · decide
    rcases List.mem_cons.mp hx with rfl | hx
    · decide
    · exact le_toNat_of_hexValue? (hdigits x hx)

end

/-! ### Whole literals -/

variable (cs : List Char)

/-- What stands between the quotes of a literal is decoded to the constant. -/
theorem unescape?_escapeAll : unescape? (escapeAll cs) = some cs := by
  induction cs with
  | nil => rfl
  | cons c cs ih => rw [escapeAll_cons, unescape?_append (escape_spec c), ih, Option.map_some]

/-- What stands between the quotes is looked through without a find: the end of the literal is
looked for behind it. -/
theorem closing?_escapeAll_append (rest : List Char) :
    closing? (escapeAll cs ++ rest) = (closing? rest).map (· + (escapeAll cs).length) := by
  induction cs with
  | nil => simp
  | cons c cs ih =>
    rw [escapeAll_cons, List.append_assoc, closing?_append (escape_spec c), ih, Option.map_map,
      List.length_append, Nat.add_comm (escape c).length]
    simp only [Function.comp_def, Nat.add_assoc]

theorem le_toNat_of_mem_escapeAll {x : Char} (hx : x ∈ escapeAll cs) : 0x20 ≤ x.toNat := by
  obtain ⟨c, -, hx⟩ := List.mem_flatMap.mp hx
  exact le_toNat_of_mem (escape_spec c) hx

/-- **A literal is read back**, and nothing of what stands behind it. -/
theorem read?_quote_append (s : String) (rest : List Char) :
    read? ((quote s).toList ++ rest) = some (s, rest) := by
  have hclosing :
      closing? (escapeAll s.toList ++ '"' :: rest) = some (escapeAll s.toList).length := by
    rw [closing?_escapeAll_append, closing?_quote, Option.map_some, Nat.zero_add]
  have htext : (quote s).toList ++ rest = '"' :: (escapeAll s.toList ++ '"' :: rest) := by
    simp [quote]
  rw [htext, read?, hclosing]
  simp [unescape?_escapeAll]

end Quoted

/-! ### Words in a text -/

/-- The number of lines depends on what has been read of the first line only by whether it is
anything. -/
theorem length_linesFrom_congr {current current' : List Char} (h : current = [] ↔ current' = [])
    (cs : List Char) : (linesFrom current cs).length = (linesFrom current' cs).length := by
  induction cs generalizing current current' with
  | nil =>
    by_cases hc : current = []
    · rw [hc, h.mp hc]
    · simp [linesFrom, hc, mt h.mpr hc]
  | cons c cs ih =>
    rw [linesFrom, linesFrom]
    split
    · rfl
    · exact ih (by simp)

section

variable {word : List Char} (hfeed : '\n' ∉ word)
include hfeed

/-- A word without a line feed is read as a part of the current line. -/
theorem linesFrom_append (current behind : List Char) :
    linesFrom current (word ++ behind) = linesFrom (word.reverse ++ current) behind := by
  induction word generalizing current with
  | nil => rfl
  | cons c word ih =>
    obtain ⟨hc, hword⟩ := List.ne_and_not_mem_of_not_mem_cons hfeed
    rw [List.cons_append, linesFrom, if_neg (Ne.symm hc), ih hword, List.reverse_cons,
      List.append_assoc, List.singleton_append]

/-- **A word breaks no line**: with another word in its place there are as many. The induction is on
the text in front of it. -/
theorem length_linesFrom_word {word' : List Char} (hfeed' : '\n' ∉ word') (hne : word ≠ [])
    (hne' : word' ≠ []) (current front behind : List Char) :
    (linesFrom current (front ++ (word ++ behind))).length =
      (linesFrom current (front ++ (word' ++ behind))).length := by
  induction front generalizing current with
  | nil =>
    rw [List.nil_append, List.nil_append, linesFrom_append hfeed, linesFrom_append hfeed']
    exact length_linesFrom_congr (by simp [hne, hne']) behind
  | cons c front ih =>
    rw [List.cons_append, List.cons_append, linesFrom, linesFrom]
    split
    · rw [List.length_cons, List.length_cons, ih]
    · exact ih _

/-- **A word stands on one line**, if it does not end with a carriage return, which might be dropped
with the end of the line. -/
theorem exists_infix_linesFrom (hreturn : word.getLast? ≠ some '\r') (hne : word ≠ [])
    (current front behind : List Char) :
    ∃ line ∈ linesFrom current (front ++ (word ++ behind)), word <:+: line := by
  -- the line of the word goes on behind it up to the next line feed, where it may lose one return
  have hline (pre post : List Char) :
      ∃ line ∈ linesFrom (pre ++ word ++ post).reverse behind, word <:+: line := by
    induction behind generalizing post with
    | nil => exact ⟨pre ++ word ++ post, by simp [linesFrom, hne], pre, post, rfl⟩
    | cons c behind ih =>
      rw [linesFrom, List.reverse_reverse]
      split
      · refine ⟨_, List.mem_cons_self, ?_⟩
        rw [dropReturn]
        split
        · next hlast =>
          have hpost : post ≠ [] := by
            rintro rfl
            rw [List.append_nil, List.getLast?_append, List.getLast?_eq_some_getLast hne,
              Option.some_or, ← List.getLast?_eq_some_getLast hne] at hlast
            exact hreturn hlast
          exact ⟨pre, post.dropLast, by rw [List.dropLast_append_of_ne_nil hpost]⟩
        · exact ⟨pre, post, rfl⟩
      · have hread :
            c :: (pre ++ word ++ post).reverse = (pre ++ word ++ (post ++ [c])).reverse := by
          simp
        rw [hread]
        exact ih (post ++ [c])
  induction front generalizing current with
  | nil =>
    rw [List.nil_append, linesFrom_append hfeed]
    simpa using hline current.reverse []
  | cons c front ih =>
    rw [List.cons_append, linesFrom]
    split
    · obtain ⟨line, hmem, hword⟩ := ih []
      exact ⟨line, List.mem_cons_of_mem _ hmem, hword⟩
    · exact ih _

end

/-- A literal holds no line feed. -/
theorem newline_not_mem_quote (s : String) : '\n' ∉ (quote s).toList := by
  intro h
  rw [quote, String.toList_ofList, List.mem_cons, List.mem_append] at h
  rcases h with h | h | h
  · revert h
    decide
  · exact absurd (Quoted.le_toNat_of_mem_escapeAll _ h) (by decide)
  · revert h
    decide

theorem quote_ne_nil (s : String) : (quote s).toList ≠ [] := by
  simp [quote]

/-- **A constant can be decoded from its literal**, for every text. Decoding what stands between the
quotes gives back the text; there is no quote there that is not escaped, and no control. So a
literal is read back off the front of any text, with nothing of what stands behind it, and different
texts have different literals. In any text, a literal stands whole on one line, and there are as
many lines as if it were empty. -/
theorem quote_decodable (s : String) :
    (∃ inside, (quote s).toList = '"' :: (inside ++ ['"']) ∧
      Quoted.unescape? inside = some s.toList ∧ Quoted.closing? inside = none ∧
      ∀ c ∈ inside, 0x20 ≤ c.toNat) ∧
    (∀ rest, Quoted.read? ((quote s).toList ++ rest) = some (s, rest)) ∧
    (∀ s', quote s' = quote s ↔ s' = s) ∧
    ∀ front behind,
      (lines (front ++ (Literal.string s).text ++ behind)).length =
        (lines (front ++ "\"\"" ++ behind)).length ∧
      ∃ line ∈ lines (front ++ (Literal.string s).text ++ behind),
        (quote s).toList <:+: line.toList := by
  refine ⟨⟨Quoted.escapeAll s.toList, ?_, Quoted.unescape?_escapeAll _, ?_,
    fun c hc => Quoted.le_toNat_of_mem_escapeAll _ hc⟩, Quoted.read?_quote_append s, ?_, ?_⟩
  · simp [quote]
  · have hclosing := Quoted.closing?_escapeAll_append s.toList []
    rwa [List.append_nil] at hclosing
  · intro s'
    refine ⟨fun heq => ?_, fun heq => heq ▸ rfl⟩
    have hread := Quoted.read?_quote_append s' []
    rw [heq, Quoted.read?_quote_append s []] at hread
    exact (Prod.mk.inj (Option.some.inj hread)).1.symm
  · intro front behind
    have hempty : "\"\"" = quote "" := rfl
    simp only [hempty, Literal.text, lines, List.length_map, String.toList_append,
      List.append_assoc]
    refine ⟨length_linesFrom_word (newline_not_mem_quote s) (newline_not_mem_quote "")
      (quote_ne_nil s) (quote_ne_nil "") _ _ _, ?_⟩
    have hreturn : (quote s).toList.getLast? ≠ some '\r' := by
      rw [quote, String.toList_ofList, ← List.cons_append, List.getLast?_concat]
      decide
    obtain ⟨line, hline, hinfix⟩ := exists_infix_linesFrom (newline_not_mem_quote s) hreturn
      (quote_ne_nil s) [] front.toList behind.toList
    exact ⟨_, List.mem_map_of_mem hline, by rwa [String.toList_ofList]⟩

/-- A text with a quote, backslashes in front of letters, a control in front of digits and a line
feed. -/
theorem quote_decodable_of_escapes :
    let s := "\"\\u\\n\x0141\n"
    (quote s = "\"\\\"\\\\u\\\\n\\u000141\\n\"") ∧
      Quoted.read? ((quote s).toList ++ ['"', ';']) = some (s, ['"', ';']) ∧
      ∃ inside, '\\' ∈ inside ∧ (∀ c ∈ inside, 0x20 ≤ c.toNat) ∧
        Quoted.unescape? inside = some s.toList := by
  intro s
  have hquote : quote s = "\"\\\"\\\\u\\\\n\\u000141\\n\"" := by
    decide
  obtain ⟨⟨inside, htext, hunescape, -, hcontrols⟩, hread, -, -⟩ := quote_decodable s
  refine ⟨hquote, hread _, inside, ?_, hcontrols, hunescape⟩
  rw [hquote] at htext
  have hmem : '\\' ∈ inside ++ ['"'] := (List.cons.inj htext).2 ▸ by decide
  simpa using hmem

end Text

end JvmSource
