import JvmSource.Proofs.Eval.Branch
import JvmSource.Proofs.Structure.Rows
import JvmSource.Proofs.Text.Replace

/-!
# Jumps in their final form

The line of a branch is written with a `goto`, and the visit of the items decides what the jump
becomes. Its final form is put in the place of the first `goto` to the same label on the line. That
is the jump itself, unless the condition in front of it mentions one (`BranchForm.Mentions`), as a
string literal may: then the condition is changed and the jump is not.

The proof follows a line through three passes.

* In the evaluation, the line of a branch has a form: the jump alone, or the jump behind a condition
  (`BranchForm`), and sometimes a note on an exception behind it.
* In the visit, the item of the block gets the jump that leads to the label
  (`Outline.Lawful.exists_leadsTo`).
* In the rows, the lines of a block are those of its evaluation with the last one rewritten. Each
  jump changes the lines of its own block only, and a block is an item once, so the jumps of other
  items do not matter (`Outline.Lawful.getElem?_rewriteLines`).

On one line the replacement is followed through the text: what stands in front of the condition
holds no `g`, behind the condition stands a parenthesis, which the phrase does not hold, and then
comes the jump. Together: `branch_lines_rewritten`.
-/

namespace JvmSource

/-! ### One line -/

/-- Whether the condition of a branch holds a phrase. -/
def BranchForm.Mentions (phrase : String) : BranchForm → Prop
  | always => False
  | when condition => phrase.toList <:+: condition.toList

/-- The jump to a label, as a branch is written with. -/
def Label.goto (label : Label) : String :=
  "goto " ++ label.text

namespace BranchForm

/-- The text of a label holds no parenthesis. -/
theorem paren_notMem_goto (label : Label) : ')' ∉ label.goto.toList := by
  have hdecimal : ')' ∉ (Text.decimal label.id).toList := fun h =>
    absurd (Text.isDigit_of_mem_decimal h) (by decide)
  rcases label with ⟨id, kind⟩
  cases kind <;> simp [Label.goto, Label.text, hdecimal]

variable {label : Label} {jump tail : String}

theorem toList_goto (label : Label) : ∃ cs, label.goto.toList = 'g' :: cs :=
  ⟨"oto ".toList ++ label.text.toList, by simp [Label.goto]⟩

theorem toList_always : (always.write jump ++ tail).toList = jump.toList ++ ';' :: tail.toList := by
  simp [write]

theorem toList_when {condition : String} : ((when condition).write jump ++ tail).toList =
    ['i', 'f', '('] ++ (condition.toList ++
      ')' :: ([' ', '\x7b', ' '] ++ (jump.toList ++ (';' :: ' ' :: '\x7d' :: tail.toList)))) := by
  simp [write]

/-- **The jump is replaced**, if the condition does not mention it. -/
theorem replaceFirst_write {form : BranchForm} (h : ¬ form.Mentions label.goto) :
    Text.replaceFirst (form.write label.goto ++ tail) label.goto jump =
      form.write jump ++ tail := by
  obtain ⟨cs, hgoto⟩ := toList_goto label
  refine String.toList_injective ?_
  rw [Text.replaceFirst, String.toList_ofList]
  cases form with
  | always =>
    rw [toList_always, toList_always, Text.replaceFirstIn_append_self (by simp [hgoto])]
  | when condition =>
    have hbrace : Text.replaceFirstIn label.goto.toList jump.toList
        ([' ', '\x7b', ' '] ++ (label.goto.toList ++ (';' :: ' ' :: '\x7d' :: tail.toList))) =
          [' ', '\x7b', ' '] ++ (jump.toList ++ (';' :: ' ' :: '\x7d' :: tail.toList)) := by
      rw [hgoto, Text.replaceFirstIn_append_of_head_notMem (by decide), ← hgoto,
        Text.replaceFirstIn_append_self (by simp [hgoto])]
    rw [toList_when, toList_when, hgoto, Text.replaceFirstIn_append_of_head_notMem (by decide),
      ← hgoto, Text.replaceFirstIn_append_of_not_infix h (paren_notMem_goto label), hbrace]

/-- **The condition is changed instead**, if it mentions the jump. -/
theorem replaceFirst_write_of_mentions {condition : String}
    (h : (when condition).Mentions label.goto) :
    Text.replaceFirst ((when condition).write label.goto ++ tail) label.goto jump =
      (when (Text.replaceFirst condition label.goto jump)).write label.goto ++ tail := by
  obtain ⟨cs, hgoto⟩ := toList_goto label
  refine String.toList_injective ?_
  rw [Text.replaceFirst, String.toList_ofList, toList_when, toList_when]
  nth_rewrite 1 [hgoto]
  rw [Text.replaceFirstIn_append_of_head_notMem (by decide), ← hgoto,
    Text.replaceFirstIn_append_of_infix h, Text.replaceFirst, String.toList_ofList]

end BranchForm

/-! ### The jump of an item -/

/-- The text of a jump in its final form. -/
def Jump.text : Jump → String
  | omitted => ""
  | breakOut label => "break " ++ label.text
  | continueLoop _ loop => "continue " ++ loop.text

/-- The jump stands for one to a label: it breaks out of the scope with that label, or goes on with
a loop. -/
def Jump.LeadsTo (label : Label) : Jump → Prop
  | omitted => False
  | breakOut target => target = label
  | continueLoop target loop => target = label ∧ loop.kind = .loop

theorem Jump.LeadsTo.rewrite_eq {label : Label} {jump : Jump} (h : jump.LeadsTo label)
    (text : String) : jump.rewrite text = some (Text.replaceFirst text label.goto jump.text) := by
  cases jump with
  | omitted => exact h.elim
  | breakOut target =>
    obtain rfl : target = label := h
    rfl
  | continueLoop target loop =>
    obtain ⟨rfl, -⟩ := h
    rfl

namespace Nesting

variable {number : Nat} {lines : List (List (Option String))}

/-- What is done to the lines of one block. -/
def rewriteBlock (block : Block) (jump : Jump) (ls : List (Option String)) : List (Option String) :=
  ls.modify (block.last - block.start) (·.bind fun text => jump.rewrite text)

/-- What the jump of one item does to the lines of all blocks. -/
def rewriteItem (lines : List (List (Option String))) :
    Item × Option Jump → List (List (Option String))
  | (.block number block, some jump) => lines.modify number (rewriteBlock block jump)
  | _ => lines

/-- Rewriting goes through the items one by one. -/
theorem rewriteLines_eq (n : Nesting) (items : List Item) (lines : List (List (Option String))) :
    n.rewriteLines items lines = (items.zip n.jumps).foldl rewriteItem lines := by
  rw [rewriteLines]
  congr 1

/-- A jump changes the lines of its own block only. -/
theorem getElem?_foldl_rewriteItem {pairs : List (Item × Option Jump)}
    (h : ∀ block jump, (.block number block, jump) ∉ pairs) :
    (pairs.foldl rewriteItem lines)[number]? = lines[number]? := by
  induction pairs generalizing lines with
  | nil => rfl
  | cons pair pairs ih =>
    rw [List.foldl_cons, ih (fun block jump hmem => h block jump (List.mem_cons_of_mem _ hmem))]
    rcases pair with ⟨item, jump⟩
    cases item with
    | block m c =>
      have hne : m ≠ number := by
        rintro rfl
        exact h c jump List.mem_cons_self
      cases jump with
      | none => rfl
      | some jump =>
        rw [rewriteItem, List.getElem?_modify]
        simp [hne]
    | _ => rfl

/-- **The lines of a block** are changed by the jump of its item alone. -/
theorem getElem?_rewriteLines {n : Nesting} {items : List Item} {k : Nat} {block : Block}
    {jump : Option Jump} (hk : items[k]? = some (.block number block))
    (hunique : ∀ j c, items[j]? = some (.block number c) → j = k)
    (hjump : n.jumps[k]? = some jump) :
    (n.rewriteLines items lines)[number]? =
      lines[number]?.map fun ls => jump.elim ls (rewriteBlock block · ls) := by
  have hpair : (items.zip n.jumps)[k]? = some (.block number block, jump) :=
    List.getElem?_zip_eq_some.mpr ⟨hk, hjump⟩
  have hother : ∀ j c other, (items.zip n.jumps)[j]? = some (.block number c, other) → j = k :=
    fun j c other hj => hunique j c (List.getElem?_zip_eq_some.mp hj).1
  -- the other items belong to other blocks, and leave these lines as they are
  have hbefore : ∀ c other, (.block number c, other) ∉ (items.zip n.jumps).take k := by
    intro c other hmem
    obtain ⟨j, hj⟩ := List.getElem?_of_mem hmem
    rw [List.getElem?_take] at hj
    split at hj
    · exact absurd (hother j c other hj) (by omega)
    · cases hj
  have hbehind : ∀ c other, (.block number c, other) ∉ (items.zip n.jumps).drop (k + 1) := by
    intro c other hmem
    obtain ⟨j, hj⟩ := List.getElem?_of_mem hmem
    rw [List.getElem?_drop] at hj
    exact absurd (hother _ c other hj) (by omega)
  have hown (lines : List (List (Option String))) :
      (rewriteItem lines (.block number block, jump))[number]? =
        lines[number]?.map fun ls => jump.elim ls (rewriteBlock block · ls) := by
    cases jump with
    | none => simp [rewriteItem]
    | some jump => simp [rewriteItem]
  rw [rewriteLines_eq, eq_take_append_cons_drop hpair, List.foldl_append, List.foldl_cons,
    getElem?_foldl_rewriteItem hbehind, hown, getElem?_foldl_rewriteItem hbefore]

end Nesting

/-- The rows of an item stand together. -/
theorem Outline.infix_rowsFrom {o : Outline} {options : Options}
    {lines : List (List (Option String))} {scopes : List Scope} {start k : Nat} {items : List Item}
    {item : Item} {rows : List Row} (h : o.rowsFrom options lines scopes start items = .ok rows)
    (hk : items[k]? = some item) :
    ∃ own, o.itemRows options lines item = .ok own ∧ own <:+: rows := by
  rw [eq_take_append_cons_drop hk] at h
  obtain ⟨front, back, -, hback, rfl⟩ := rowsFrom_append_eq_ok h
  obtain ⟨own, behind, hown, -, rfl⟩ := rowsFrom_cons_eq_ok hback
  refine ⟨own, hown, ?_⟩
  rw [← List.append_assoc, ← List.append_assoc]
  exact List.infix_append _ own behind

/-- Among the rows are those of the block with the given lines, the line of its last instruction
replaced by `line` and the others as they are. -/
def Outline.ShowsLast (options : Options) (rows : List Row) (b : Block) (ls : List (Option String))
    (line : String) : Prop :=
  blockRows options b (ls.set (b.last - b.start) (some line)) <:+: rows

namespace Outline.Lawful

variable {o : Outline} {items : List Item} {n : Nesting} (ho : o.Lawful)
  (hitems : o.items = .ok items)
include ho hitems

/-- The lines of a block of the method are changed by the jump of its item alone. -/
theorem getElem?_rewriteLines {lines : List (List (Option String))} {k number : Nat} {b : Block}
    {jump : Option Jump} (hk : items[k]? = some (.block number b))
    (hjump : n.jumps[k]? = some jump) :
    (n.rewriteLines items lines)[number]? =
      lines[number]?.map fun ls => jump.elim ls (Nesting.rewriteBlock b · ls) := by
  refine Nesting.getElem?_rewriteLines hk (fun j c hj => ?_) hjump
  -- a block has its place among the items once
  obtain rfl := Option.some.inj
    ((ho.getElem?_of_item hitems hj).symm.trans (ho.getElem?_of_item hitems hk))
  exact ho.position_unique hitems hj hk

/-- **A block in the rows** has the lines of its evaluation, but for the final form of its jump. -/
theorem showsLast {options : Options} {lines : List (List (Option String))} {rows : List Row}
    (hrows : o.rowsFrom options (n.rewriteLines items lines) n.closed 0 items = .ok rows)
    {k number : Nat} {b : Block} {jump : Jump} {ls : List (Option String)} {line line' : String}
    (hk : items[k]? = some (.block number b)) (hjump : n.jumps[k]? = some (some jump))
    (hls : lines[number]? = some ls) (hline : ls[b.last - b.start]? = some (some line))
    (hrewrite : jump.rewrite line = some line') : ShowsLast options rows b ls line' := by
  have hlines : (n.rewriteLines items lines)[number]? = some (Nesting.rewriteBlock b jump ls) := by
    rw [ho.getElem?_rewriteLines hitems hk hjump, hls, Option.map_some, Option.elim_some]
  have hset : Nesting.rewriteBlock b jump ls = ls.set (b.last - b.start) (some line') := by
    rw [Nesting.rewriteBlock, List.modify_eq_set_getElem?, hline]
    simp [hrewrite]
  obtain ⟨own, hown, hinfix⟩ := infix_rowsFrom hrows hk
  obtain rfl := Except.ok.inj hown
  rwa [List.getD_eq_getElem?_getD, hlines, Option.getD_some, hset] at hinfix

variable (hnest : o.nest items = .ok n)
include hnest

/-- What the jump of a branch becomes leads to the label of its target. -/
theorem exists_leadsTo {k number target : Nat} {b : Block}
    (hk : items[k]? = some (.block number b)) (hentry : o.isLoopEntry b.last = false)
    (htarget : o.graph.target? b.last = some target) :
    ∃ label jump, o.graph.label? target = some label ∧ n.jumps[k]? = some (some jump) ∧
      jump.LeadsTo label := by
  have hnested := ho.wellNested hitems hnest
  obtain ⟨jump, hjump, hexplains⟩ := hnested.explains k number b hk
  rcases jump with _ | (_ | label | ⟨label, name⟩)
  · cases hexplains.2.symm.trans htarget
  · cases hentry.symm.trans hexplains
  · obtain ⟨-, s, hs, hkind, -, t, ht, hitem⟩ := hexplains
    obtain rfl := Option.some.inj (ht.symm.trans htarget)
    obtain ⟨m, c, hc, hlabel⟩ := (hnested.closed_spec s hs).2.exists_block hkind
    obtain ⟨m', d, hd, rfl⟩ := getElem?_of_itemAt? hitem
    obtain ⟨rfl, rfl⟩ : m' = m ∧ d = c := by simpa using hd.symm.trans hc
    exact ⟨label, .breakOut label, hlabel ▸ ho.label_start (ho.mem_blocks_of_item hitems hc), hjump,
      rfl⟩
  · obtain ⟨-, s, m, loop, -, -, -, ht, hlabel, hname⟩ := hexplains
    obtain rfl := Option.some.inj (ht.symm.trans htarget)
    obtain ⟨own, -, rfl⟩ := loopLabel_eq_ok hname
    exact ⟨label, .continueLoop label own.asLoop, hlabel, hjump, rfl, rfl⟩

end Outline.Lawful

/-! ### The lines of a method -/

/-- The lines of each block of a method, as they come out of the evaluation. -/
def Signature.blockLines (sig : Signature) (c : Code) (pool : Pool) (options : Options)
    (o : Outline) : Result (List (List (Option String))) := do
  let table ← c.tableFor pool options
  let locals ← sig.locals table pool
  let ctx : Context :=
    { owner := Name.dotted sig.owner, pool, graph := o.graph, recover := options.recoverUnderflow }
  ctx.evaluateAll (o.blocks.zip (keptBlocks o.blocks)) { locals, objects := 0 }

/-- The text of a method, by the passes that it comes out of. -/
theorem Signature.body_eq (sig : Signature) (c : Code) (pool : Pool) (options : Options) :
    sig.body c pool options = c.outline pool >>= fun o =>
      sig.blockLines c pool options o >>= o.body options := by
  simp only [body, blockLines, bind_assoc]

/-- The line of a branch among the lines of a method. -/
theorem Signature.exists_branchForm {sig : Signature} {c : Code} {pool : Pool} {options : Options}
    {o : Outline} {items : List Item} {lines : List (List (Option String))}
    {k number target : Nat} {b : Block} {label : Label} (houtline : c.outline pool = .ok o)
    (hitems : o.items = .ok items) (hlines : sig.blockLines c pool options o = .ok lines)
    (hk : items[k]? = some (.block number b)) (htarget : o.graph.target? b.last = some target)
    (hlabel : o.graph.label? target = some label) :
    ∃ ls form tail, lines[number]? = some ls ∧
      ls[b.last - b.start]? = some (some (BranchForm.write label.goto form ++ tail)) ∧
      (tail = "" ∨ form = .always ∧ b.isHandler = true ∧ tail = Context.exceptionNote) := by
  have ho := Code.lawful_of_outline houtline
  obtain ⟨instr, hinstr, hbranch, hrequire⟩ := ho.exists_branch htarget
  obtain ⟨hb, hkept⟩ := (ho.mem_block_iff hitems).mp (List.mem_of_getElem? hk)
  have hpair : (o.blocks.zip (keptBlocks o.blocks))[number]? = some (b, true) := by
    refine List.getElem?_zip_eq_some.mpr ⟨hb, ?_⟩
    rw [Outline.Keeps, List.getD_eq_getElem?_getD] at hkept
    cases hget : (keptBlocks o.blocks)[number]? <;> simp_all
  obtain ⟨table, -, hlines⟩ := Result.bind_eq_ok.mp hlines
  obtain ⟨locals, -, hlines⟩ := Result.bind_eq_ok.mp hlines
  obtain ⟨before, after, ls, hevaluate, hls⟩ := Context.getElem?_evaluateAll hlines hpair
  have hbounds := ho.tiles.bounds (List.mem_of_getElem? hb)
  obtain ⟨form, target', label', tail, htarget', hlabel', hline, htail⟩ :=
    Context.getElem?_evaluate_of_isBranch hevaluate hbounds.2.1 hinstr hbranch
  obtain rfl := Except.ok.inj (hrequire.symm.trans htarget')
  obtain rfl := Option.some.inj (hlabel.symm.trans hlabel')
  exact ⟨ls, form, tail, hls, hline, htail⟩

/-- What becomes of the branch at the end of the block `b`, the item `k` of a method, that jumps to
`label`: its line is `form` with a `goto`, and `tail` behind it; the jump is to be written as
`jump`. -/
structure BranchRewritten (n : Nesting) (options : Options) (rows : List Row)
    (k : Nat) (b : Block) (ls : List (Option String)) (label : Label) (jump : Jump)
    (form : BranchForm) (tail : String) : Prop where
  jump_eq : n.jumps[k]? = some (some jump)
  leadsTo : jump.LeadsTo label
  line_eq : ls[b.last - b.start]? = some (some (form.write label.goto ++ tail))
  tail_eq : tail = "" ∨ form = .always ∧ b.isHandler = true ∧ tail = Context.exceptionNote
  /-- The jump is replaced, and nothing else is. -/
  shows : ¬ form.Mentions label.goto →
    Outline.ShowsLast options rows b ls (form.write jump.text ++ tail)
  /-- A condition that mentions the jump is changed in its place. -/
  shows_of_mentions : ∀ condition, form = .when condition → form.Mentions label.goto →
    Outline.ShowsLast options rows b ls (BranchForm.write label.goto
      (.when (Text.replaceFirst condition label.goto jump.text)) ++ tail)

/-- **The final form of a branch.** In the text of a method, the line of every branch that is not
left out is the line of its evaluation with the jump replaced by a `break` or a `continue`, and all
other lines of its block stay as they are, unless its condition mentions a `goto` to the same label.
If it does, the first mention is replaced instead, and the jump is still a `goto`. -/
theorem branch_lines_rewritten {sig : Signature} {c : Code} {pool : Pool} {options : Options}
    {text : String} (h : sig.body c pool options = .ok text) :
    ∃ o items n lines rows, c.outline pool = .ok o ∧ o.items = .ok items ∧ o.nest items = .ok n ∧
      sig.blockLines c pool options o = .ok lines ∧ o.rows options lines = .ok rows ∧
      o.body options lines = .ok text ∧
      ∀ (k number target : Nat) (b : Block), items[k]? = some (Item.block number b) →
        o.isLoopEntry b.last = false → o.graph.target? b.last = some target →
        ∃ ls label jump form tail, lines[number]? = some ls ∧ o.graph.label? target = some label ∧
          BranchRewritten n options rows k b ls label jump form tail := by
  rw [Signature.body_eq] at h
  obtain ⟨o, houtline, h⟩ := Result.bind_eq_ok.mp h
  obtain ⟨lines, hlines, hbody⟩ := Result.bind_eq_ok.mp h
  obtain ⟨rows, hrows, -⟩ := Result.bind_eq_ok.mp hbody
  obtain ⟨items, hitems, hnested⟩ := Result.bind_eq_ok.mp hrows
  obtain ⟨n, hnest, hfrom⟩ := Result.bind_eq_ok.mp hnested
  have ho := Code.lawful_of_outline houtline
  refine ⟨o, items, n, lines, rows, houtline, hitems, hnest, hlines, hrows, hbody, ?_⟩
  intro k number target b hk hentry htarget
  obtain ⟨label, jump, hlabel, hjump, hleads⟩ := ho.exists_leadsTo hitems hnest hk hentry htarget
  obtain ⟨ls, form, tail, hls, hline, htail⟩ :=
    Signature.exists_branchForm houtline hitems hlines hk htarget hlabel
  -- the block stands in the rows with what the replacement makes of its last line
  have hshows := ho.showsLast hitems hfrom hk hjump hls hline (hleads.rewrite_eq _)
  refine ⟨ls, label, jump, form, tail, hls, hlabel, hjump, hleads, hline, htail, ?_, ?_⟩
  · intro hmentions
    rwa [BranchForm.replaceFirst_write hmentions] at hshows
  · rintro condition rfl hmentions
    rwa [BranchForm.replaceFirst_write_of_mentions hmentions] at hshows

/-- A test for `null` in front of a `return` that it jumps over. -/
theorem branch_lines_rewritten_of_nullTest :
    ∃ text o items n lines rows,
      Signature.body ⟨"A", ⟨8⟩, "m", "()V"⟩ (.ofParts 1 0 [0x01, 0xc6, 0, 4, 0xb1, 0xb1] [] [])
        ⟨#[]⟩ {} = .ok text ∧
      (Code.ofParts 1 0 [0x01, 0xc6, 0, 4, 0xb1, 0xb1] [] []).outline ⟨#[]⟩ = .ok o ∧
      o.items = .ok items ∧ o.nest items = .ok n ∧ o.rows {} lines = .ok rows ∧
      ∀ (k number target : Nat) (b : Block), items[k]? = some (Item.block number b) →
        o.isLoopEntry b.last = false → o.graph.target? b.last = some target →
        ∃ ls label jump form tail, lines[number]? = some ls ∧ o.graph.label? target = some label ∧
          BranchRewritten n {} rows k b ls label jump form tail := by
  have hok : (Signature.body ⟨"A", ⟨8⟩, "m", "()V"⟩
      (.ofParts 1 0 [0x01, 0xc6, 0, 4, 0xb1, 0xb1] [] []) ⟨#[]⟩ {}).isOk = true := by
    decide +kernel
  obtain ⟨text, h⟩ := Result.exists_of_isOk hok
  obtain ⟨o, items, n, lines, rows, houtline, hitems, hnest, -, hrows, -, hbranches⟩ :=
    branch_lines_rewritten h
  exact ⟨text, o, items, n, lines, rows, h, houtline, hitems, hnest, hrows, hbranches⟩

/-- A string literal that reads like the jump behind it is changed, and the jump is not. -/
theorem literal_changed_for_jump :
    ∃ o lines rows,
      (Code.ofParts 1 0 [0x12, 1, 0xc6, 0, 4, 0xb1, 0xb1] [] []).outline
        ⟨#[.string 2, .utf8 "goto L3"]⟩ = .ok o ∧
      Signature.blockLines ⟨"A", ⟨8⟩, "m", "()V"⟩
        (.ofParts 1 0 [0x12, 1, 0xc6, 0, 4, 0xb1, 0xb1] [] []) ⟨#[.string 2, .utf8 "goto L3"]⟩ {}
        o = .ok lines ∧
      lines.head? = some [none, some ((BranchForm.when "(\"goto L3\") == null").write "goto L3")] ∧
      o.rows {} lines = .ok rows ∧
      .line ("/*  1 */ " ++ (BranchForm.when "(\"goto L3\") == null").write "break L3") ∉ rows ∧
      .line ("/*  1 */ " ++ (BranchForm.when "(\"break L3\") == null").write "goto L3") ∈ rows := by
  have hok : ((Code.ofParts 1 0 [0x12, 1, 0xc6, 0, 4, 0xb1, 0xb1] [] []).outline
      ⟨#[.string 2, .utf8 "goto L3"]⟩ >>= fun o => Signature.blockLines ⟨"A", ⟨8⟩, "m", "()V"⟩
        (.ofParts 1 0 [0x12, 1, 0xc6, 0, 4, 0xb1, 0xb1] [] []) ⟨#[.string 2, .utf8 "goto L3"]⟩ {} o
        >>= fun lines => o.rows {} lines >>= fun rows => .ok (lines.head?, rows)) =
      .ok (some [none, some ((BranchForm.when "(\"goto L3\") == null").write "goto L3")],
        [.enter "L3: \x7b", .line "/*  1 */ if((\"break L3\") == null) \x7b goto L3; \x7d",
          .line "/*  2 */ return;", .leave, .line "/*  3 */ return;"]) := by
    decide +kernel
  obtain ⟨o, houtline, h⟩ := Result.bind_eq_ok.mp hok
  obtain ⟨lines, hlines, h⟩ := Result.bind_eq_ok.mp h
  obtain ⟨rows, hrows, h⟩ := Result.bind_eq_ok.mp h
  obtain ⟨hhead, rfl⟩ := Prod.mk.inj (Except.ok.inj h)
  exact ⟨o, lines, _, houtline, hlines, hhead, hrows, by simp [BranchForm.write],
    by simp [BranchForm.write]⟩

end JvmSource
