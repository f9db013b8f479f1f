import JvmSource.Proofs.Encoding
import JvmSource.Proofs.Eval.Shuffle
import JvmSource.Proofs.Records
import JvmSource.Proofs.Text.Token
import JvmSource.Text.Lines

/-!
# Switch tables

The length of a `lookupswitch` is worked out from its pair count while the code is decoded, and its
table is read again when the instruction is evaluated. What decoding accepts is padding and the
bytes of a table whose count is that of its pairs (`Opcode.Accepts`), and such bytes are read as
that table (`SwitchTable.inverts_read`). So the second reading finds what the first one has let
through (`Instruction.exists_switchTable`), and the evaluation of the instruction cannot fail for
want of bytes.

It writes one line for each pair, in the order of the table (`Action.lines_switchText`), by which
the pair is known (`Action.caseLine_injective`): the key ends where the colon stands, and both
numbers are known by their text. That the text has these lines is proved for any texts that are one
line each, behind a heading of any number of lines (`Text.lines_append_join`). The heading holds the
key, which may have any text.

Together: `switch_readers_agree`.
-/

namespace JvmSource

/-! ### Lines of a text -/

namespace Text

/-- The lines of a text go on behind a line feed, if a line is behind it that has not ended yet. -/
theorem linesFrom_append_newline {x : Char} (hfeed : x ≠ '\n') (hreturn : x ≠ '\r')
    (current front behind : List Char) :
    linesFrom current (front ++ x :: '\n' :: behind) =
      linesFrom current (front ++ [x]) ++ linesFrom [] behind := by
  induction front generalizing current with
  | nil => simp [linesFrom, hfeed, hreturn, dropReturn]
  | cons c front ih =>
    rw [List.cons_append, List.cons_append, linesFrom, linesFrom]
    split
    · rw [ih, List.cons_append]
    · exact ih (c :: current)

/-- The text is one line: it is not empty and has neither line feeds nor carriage returns. -/
def IsLine (cs : List Char) : Prop :=
  cs ≠ [] ∧ '\n' ∉ cs ∧ '\r' ∉ cs

/-- A text that is one line is the rest of the current line. -/
theorem linesFrom_of_isLine {current cs : List Char} (h : IsLine cs) :
    linesFrom current cs = [current.reverse ++ cs] := by
  obtain ⟨hne, hfeed, -⟩ := h
  have hall : ∀ (current cs : List Char), '\n' ∉ cs → linesFrom current cs =
      if current.reverse ++ cs = [] then [] else [current.reverse ++ cs] := by
    intro current cs hfeed
    induction cs generalizing current with
    | nil => simp [linesFrom]
    | cons c cs ih =>
      rw [List.mem_cons, not_or] at hfeed
      rw [linesFrom, if_neg (Ne.symm hfeed.1), ih _ hfeed.2]
      simp
  rw [hall current cs hfeed, if_neg]
  simp [hne]

/-- Texts that are one line each, behind a line feed each, are the lines behind the text in front of
them. -/
theorem linesFrom_flatMap {x : Char} (hfeed : x ≠ '\n') (hreturn : x ≠ '\r') (front : List Char)
    {ls : List (List Char)} (h : ∀ l ∈ ls, IsLine l) :
    linesFrom [] (front ++ x :: ls.flatMap ('\n' :: ·)) = linesFrom [] (front ++ [x]) ++ ls := by
  induction ls generalizing front x with
  | nil => simp
  | cons l ls ih =>
    obtain ⟨hl, hls⟩ := List.forall_mem_cons.mp h
    obtain ⟨init, y, rfl⟩ : ∃ init y, l = init ++ [y] :=
      ⟨l.dropLast, l.getLast hl.1, (List.dropLast_append_getLast hl.1).symm⟩
    have hy : y ≠ '\n' ∧ y ≠ '\r' := by
      constructor
      · rintro rfl
        exact hl.2.1 (by simp)
      · rintro rfl
        exact hl.2.2 (by simp)
    rw [List.flatMap_cons, List.cons_append, linesFrom_append_newline hfeed hreturn,
      List.append_assoc, List.singleton_append, ih hy.1 hy.2 init hls, linesFrom_of_isLine hl]
    rfl

theorem lines_append_join {heading : String} {front : List Char} {x : Char}
    (hheading : heading.toList = front ++ [x]) (hfeed : x ≠ '\n') (hreturn : x ≠ '\r')
    {ls : List String} (h : ∀ l ∈ ls, IsLine l.toList) :
    lines (heading ++ String.join (ls.map ("\n" ++ ·))) = lines heading ++ ls := by
  have htext : (heading ++ String.join (ls.map ("\n" ++ ·))).toList =
      front ++ x :: (ls.map String.toList).flatMap ('\n' :: ·) := by
    simp [hheading, String.toList_join, List.flatMap_map]
  rw [lines, htext, linesFrom_flatMap hfeed hreturn front (by simpa using h), ← hheading,
    List.map_append, List.map_map, lines]
  simp [Function.comp_def]

end Text

/-! ### The text of a switch -/

namespace Action

/-- The line of a pair in the text of a switch: the key, and the jump with its sign. -/
def caseLine (pair : Int32 × Int32) : String :=
  "\t" ++ Text.integer pair.1.toInt ++ ": " ++ Text.signedInteger pair.2.toInt

/-- The line of the default jump in the text of a switch. -/
def defaultLine (table : SwitchTable) : String :=
  "\tdefault: " ++ Text.signedInteger table.default.toInt

/-- **A pair is known by its line.** -/
theorem caseLine_injective {pair pair' : Int32 × Int32} (h : caseLine pair = caseLine pair') :
    pair = pair' := by
  have hlist := congrArg String.toList h
  simp only [caseLine, String.toList_append, List.append_assoc] at hlist
  -- the key ends with the colon
  have hkey (n : Int) : ∀ c ∈ (Text.integer n).toList, (c != ':') = true := by
    intro c hc
    rcases Text.mem_integer hc with rfl | hdigit
    · rfl
    · exact bne_iff_ne.mpr fun heq => absurd (heq ▸ hdigit) (by decide)
  have hcolon (cs : List Char) : Text.Stops (· != ':') (": ".toList ++ cs) := by
    rintro c ⟨⟩
    rfl
  obtain ⟨hkeys, hjumps⟩ := Text.eq_of_append_eq (hkey _) (hkey _) (hcolon _) (hcolon _)
    (List.append_cancel_left hlist)
  refine Prod.ext ?_ ?_
  · exact Int32.toInt_inj.mp (Text.integer_injective (String.toList_injective hkeys))
  · exact Int32.toInt_inj.mp (Text.signedInteger_injective
      (String.toList_injective (List.append_cancel_left hjumps)))

/-- The line of a pair is one line. -/
theorem isLine_caseLine (pair : Int32 × Int32) : Text.IsLine (caseLine pair).toList := by
  refine ⟨by simp [caseLine], fun h => ?_, fun h => ?_⟩
  all_goals
    simp only [caseLine, String.toList_append, List.mem_append] at h
    rcases h with ((h | h) | h) | h
    · revert h
      decide
    · rcases Text.mem_integer h with hc | hc <;> revert hc <;> decide
    · revert h
      decide
    · rcases Text.mem_signedInteger h with hc | hc | hc <;> revert hc <;> decide

/-- The line of the default jump is one line. -/
theorem isLine_defaultLine (table : SwitchTable) : Text.IsLine (defaultLine table).toList := by
  refine ⟨by simp [defaultLine], fun h => ?_, fun h => ?_⟩
  all_goals
    simp only [defaultLine, String.toList_append, List.mem_append] at h
    rcases h with h | h
    · revert h
      decide
    · rcases Text.mem_signedInteger h with hc | hc | hc <;> revert hc <;> decide

/-- The text of a switch is a heading with lines behind it. -/
theorem switchText_eq (key : Value) (table : SwitchTable) :
    switchText key table = "lookupswitch(" ++ key.text ++ "):" ++
      String.join ((defaultLine table :: table.pairs.map caseLine).map ("\n" ++ ·)) := by
  have hdefault : "):\n\tdefault: " = "):" ++ ("\n" ++ "\tdefault: ") := by decide
  have hcases : (fun pair : Int32 × Int32 => "\n\t" ++ Text.integer pair.1.toInt ++ ": " ++
      Text.signedInteger pair.2.toInt) = fun pair => "\n" ++ caseLine pair := by
    funext pair
    have htab : "\n\t" = "\n" ++ "\t" := by decide
    simp only [caseLine, htab, String.append_assoc]
  delta switchText
  rw [hdefault, hcases, List.map_cons, String.join_cons, List.map_map, defaultLine]
  simp only [String.append_assoc, Function.comp_def]

/-- **The lines of a switch**: behind its heading one for the default jump and one for each pair. -/
theorem lines_switchText (key : Value) (table : SwitchTable) :
    Text.lines (switchText key table) = Text.lines ("lookupswitch(" ++ key.text ++ "):") ++
      defaultLine table :: table.pairs.map caseLine := by
  have hheading : ("lookupswitch(" ++ key.text ++ "):").toList =
      ("lookupswitch(" ++ key.text ++ ")").toList ++ [':'] := by
    simp
  rw [switchText_eq]
  refine Text.lines_append_join hheading (by decide) (by decide) fun l hl => ?_
  rcases List.mem_cons.mp hl with rfl | hl
  · exact isLine_defaultLine table
  · obtain ⟨pair, -, rfl⟩ := List.mem_map.mp hl
    exact isLine_caseLine pair

end Action

/-! ### Reading the table -/

namespace Instruction

/-- The one opcode of a `lookupswitch` has a payload of varying length. -/
private theorem varying_of_lookupSwitch : ∀ opcode ∈ Opcode.catalogue,
    opcode.operation = .lookupSwitch → opcode.payload = .varying := by
  decide +kernel

/-- **The table of a switch** that can be decoded is there, behind the padding, with all its
pairs. -/
theorem exists_switchTable {a : Instruction} (h : a.WellFormed)
    (hop : a.operation = .lookupSwitch) :
    ∃ (padding : List UInt8) (table : SwitchTable), a.switchTable = .ok table ∧
      table.count.toNat = table.pairs.length ∧ table.pairs.length < 2 ^ 31 ∧
      padding.length = switchPadding a.offset ∧ a.payload = padding ++ table.write := by
  have haccepts := h.accepts
  rw [Opcode.Accepts, varying_of_lookupSwitch a.opcode h.mem_catalogue hop] at haccepts
  obtain ⟨-, padding, table, hpayload, hpadding, hcount, hlt⟩ := haccepts
  have hread : SwitchTable.read.run table.write = some (table, []) :=
    (SwitchTable.inverts_read _ _ _).mpr ⟨hcount.symm, (List.append_nil _).symm⟩
  refine ⟨padding, table, ?_, hcount, hlt, hpadding, hpayload⟩
  rw [switchTable, hpayload, List.drop_left' hpadding, Bytes.Reader.value?, hread]
  rfl

end Instruction

namespace Site

variable (site : Site) {frame : Frame} {table : SwitchTable}

/-- A switch takes its key and writes its line. -/
theorem step_lookupSwitch (hop : site.instr.operation = .lookupSwitch)
    (htable : site.instr.switchTable = .ok table) {key : Value} {rest : List Value}
    (hstack : frame.stack = key :: rest) (locals : Locals) :
    site.step locals frame = (locals, .ok { frame with
      stack := rest
      lines := frame.lines.set site.position (some (Action.switchText key table)) }) := by
  have hperform : (Action.unary .lookupSwitch).perform site frame locals [key] =
      (locals, .ok (site.write (Action.switchText key table))) := by
    rw [Action.perform, Action.Unary.effect, htable]
    rfl
  exact step_of_perform [key] (by rw [Action.resolve, hop]) rfl hperform hstack

/-- A switch without a key is one that finds the stack empty. -/
theorem step_lookupSwitch_of_nil (hop : site.instr.operation = .lookupSwitch)
    (htable : site.instr.switchTable = .ok table) (hstack : frame.stack = []) (locals : Locals) :
    site.step locals frame =
      if site.context.recover then (locals, .ok { frame with
        lines := frame.lines.set site.position
          (some (Action.switchText (placeholder site.position) table)) })
      else (locals, .error (.stackUnderflow site.instr.offset)) := by
  have hresolve : Action.resolve site.context.pool site.instr = .ok (.unary .lookupSwitch) := by
    rw [Action.resolve, hop]
  rw [step_of_resolve_ok site hresolve, hstack, operands]
  split
  · have htaken : takeRecovering site.position site.instr.offset
        (Action.unary .lookupSwitch).wants (Action.unary .lookupSwitch).demand [] =
        .ok ([placeholder site.position], []) := rfl
    rw [htaken]
    simp [conclude, Action.perform, Action.Unary.effect, htable, bind, Except.bind, pure,
      Except.pure, Except.map, Frame.apply, write]
  · rfl

/-- A switch whose table is there has all its bytes. -/
theorem step_lookupSwitch_ne_truncated (hop : site.instr.operation = .lookupSwitch)
    (htable : site.instr.switchTable = .ok table) (locals : Locals) (frame : Frame)
    (mnemonic : String) (offset : Nat) :
    (site.step locals frame).2 ≠ .error (.truncatedInstruction mnemonic offset) := by
  cases hstack : frame.stack with
  | nil =>
    rw [site.step_lookupSwitch_of_nil hop htable hstack]
    split <;> simp
  | cons key rest =>
    rw [site.step_lookupSwitch hop htable hstack]
    simp

end Site

/-- **Both readers of a switch agree.** In every code that can be decoded, the table of a
`lookupswitch` is there: its stored count is the number of its pairs, which is below `2 ^ 31`, and
the bytes behind the opcode are the padding and the table, number by number. So its evaluation never
fails for want of bytes; with a key on the stack it writes a text that has one line for the default
jump and one for each pair, in the order of the table, and different pairs have different lines. -/
theorem switch_readers_agree {bytes : List UInt8} {code : List Instruction}
    (hdecode : decode bytes = .ok code) {a : Instruction} (ha : a ∈ code)
    (hop : a.operation = .lookupSwitch) :
    ∃ (padding : List UInt8) (table : SwitchTable), a.switchTable = .ok table ∧
      table.count.toNat = table.pairs.length ∧ table.pairs.length < 2 ^ 31 ∧
      padding.length = switchPadding a.offset ∧
      a.payload = padding ++ (Bytes.i32 table.default ++ Bytes.u32 table.count ++
        table.pairs.flatMap fun pair => Bytes.i32 pair.1 ++ Bytes.i32 pair.2) ∧
      (∀ ctx body position locals frame mnemonic offset,
        (Site.step ⟨ctx, body, position, a⟩ locals frame).2 ≠
          .error (.truncatedInstruction mnemonic offset)) ∧
      (∀ ctx body position locals frame key rest, frame.stack = key :: rest →
        Site.step ⟨ctx, body, position, a⟩ locals frame = (locals, .ok { frame with
          stack := rest
          lines := frame.lines.set position (some (Action.switchText key table)) })) ∧
      (∀ key, Text.lines (Action.switchText key table) =
        Text.lines ("lookupswitch(" ++ key.text ++ "):") ++
          Action.defaultLine table :: table.pairs.map Action.caseLine) ∧
      ∀ pair pair', Action.caseLine pair = Action.caseLine pair' → pair = pair' := by
  have hwell := (decodeFrom_eq_ok_iff.mp hdecode).2.1 a ha
  obtain ⟨padding, table, htable, hcount, hlt, hpadding, hpayload⟩ :=
    Instruction.exists_switchTable hwell hop
  refine ⟨padding, table, htable, hcount, hlt, hpadding, hpayload, ?_, ?_,
    fun key => Action.lines_switchText key table, fun _ _ => Action.caseLine_injective⟩
  · intro ctx body position locals frame
    exact Site.step_lookupSwitch_ne_truncated ⟨ctx, body, position, a⟩ hop htable locals frame
  · intro ctx body position locals frame key rest hstack
    exact Site.step_lookupSwitch ⟨ctx, body, position, a⟩ hop htable hstack locals

/-- A switch of two pairs at offset 1, with two bytes of padding that are not zero. -/
theorem switch_readers_agree_of_two_pairs :
    let bytes := [0x03, 0xab, 7, 7, 0, 0, 0, 5, 0, 0, 0, 2, 0, 0, 0, 1, 0, 0, 0, 9,
      0xff, 0xff, 0xff, 0xff, 0xff, 0xff, 0xff, 0xfe]
    let push : Instruction := ⟨0, 0, ⟨0x03, "iconst_0", .fixed [], .pushInt 0⟩, []⟩
    let switch : Instruction :=
      ⟨1, 1, ⟨0xab, "lookupswitch", .varying, .lookupSwitch⟩, bytes.drop 2⟩
    let table : SwitchTable := ⟨5, 2, [(1, 9), (-1, -2)]⟩
    decode bytes = .ok [push, switch] ∧ switch.switchTable = .ok table ∧
      (∃ padding, padding.length = 2 ∧ switch.payload = padding ++ table.write) ∧
      ∀ key, Text.lines (Action.switchText key table) =
        Text.lines ("lookupswitch(" ++ key.text ++ "):") ++
          ["\tdefault: +5", "\t1: +9", "\t-1: -2"] := by
  intro bytes push switch table
  have hdecode : decode bytes = .ok [push, switch] := by
    decide +kernel
  have htable : switch.switchTable = .ok table := by
    decide +kernel
  obtain ⟨padding, table', htable', -, -, hpadding, hpayload, -, -, hlines, -⟩ :=
    switch_readers_agree hdecode (List.mem_cons_of_mem _ List.mem_cons_self) rfl
  obtain rfl : table = table' := Except.ok.inj (htable.symm.trans htable')
  have hcases : Action.defaultLine table :: table.pairs.map Action.caseLine =
      ["\tdefault: +5", "\t1: +9", "\t-1: -2"] := by
    decide +kernel
  exact ⟨hdecode, htable, ⟨padding, hpadding, hpayload⟩, fun key => by rw [hlines, hcases]⟩

end JvmSource
