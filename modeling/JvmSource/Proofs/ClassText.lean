import JvmSource.ClassFile
import JvmSource.Proofs.Eval.Recovery

/-!
# Failing methods

The text of a class is its front, the package, the header and the fields, and one section for each
of its methods. The front can be shown if the names and the types that it is made of can be read
(`ClassFile.exists_frontText_iff`); methods are not looked at for it.

The section of a method is the same in every class that has its name and its pool
(`ClassFile.shownMethod`). What it holds is one of three things (`Member.ShownAs`): the text of the
method; a comment with the method and the innermost cause, if the method fails; or a comment with
the error alone, if not even its name and its descriptor can be read. The section is this text, line
by line behind an indent, with an empty line in front (`ClassFile.exists_shownAs`).

So a method that fails leaves the rest of the text alone if failing methods are skipped, and
otherwise the first of them fails the class: `methods_fail_alone`. There is nothing that a method
could do to the rest of its class; a descriptor with too many arguments for the slots, say, makes
numbers of slots begin again, in its own section.
-/

namespace JvmSource

/-- The options with failing methods skipped or not. -/
def Options.skipping (options : Options) (skip : Bool) : Options :=
  { options with skipFailedMethods := skip }

/-! ### Methods -/

/-- Whether failing methods are skipped is no matter for the body of a method. -/
theorem Signature.body_skipping (sig : Signature) (c : Code) (pool : Pool) (options : Options)
    (skip : Bool) : sig.body c pool (options.skipping skip) = sig.body c pool options := by
  have hbody (o : Outline) (lines : List (List (Option String))) :
      o.body (options.skipping skip) lines = o.body options lines := by
    apply Outline.body_congr <;> rfl
  simp only [body, hbody]
  rfl

/-- Nor is it one for the whole text of a method. -/
theorem Member.methodText_skipping (method : Member) (owner : String) (pool : Pool)
    (options : Options) (skip : Bool) :
    method.methodText owner pool (options.skipping skip) =
      method.methodText owner pool options := by
  simp only [methodText, Signature.text, Signature.body_skipping]
  rfl

/-- The error is that of the method: it names the method, or says why its name or its descriptor
cannot be read. -/
def Member.Blames (method : Member) (pool : Pool) (e : Error) : Prop :=
  (∃ name descriptor cause, pool.utf8 method.name = .ok name ∧
    pool.utf8 method.descriptor = .ok descriptor ∧ e = .inMethod (name ++ descriptor) cause) ∨
  pool.utf8 method.name = .error e ∨
  (∃ name, pool.utf8 method.name = .ok name) ∧ pool.utf8 method.descriptor = .error e

/-- A method fails with an error of its own: either its name or its descriptor cannot be read, or
the error names the method. -/
theorem Member.blames_of_methodText {method : Member} {owner : String} {pool : Pool}
    {options : Options} {e : Error} (h : method.methodText owner pool options = .error e) :
    method.Blames pool e := by
  rcases Result.bind_eq_error.mp h with hname | ⟨name, hname, h⟩
  · exact .inr (.inl hname)
  · rcases Result.bind_eq_error.mp h with hdescriptor | ⟨descriptor, hdescriptor, h⟩
    · exact .inr (.inr ⟨⟨name, hname⟩, hdescriptor⟩)
    · dsimp only at h
      split at h
      · cases h
      · next cause _ =>
        exact .inl ⟨name, descriptor, cause, hname, hdescriptor, (Except.error.inj h).symm⟩

/-- Reading a text does not fail inside of a method. -/
theorem Pool.ne_inMethod_of_utf8 {pool : Pool} {index : UInt16} {e : Error}
    (h : pool.utf8 index = .error e) (method : String) (cause : Error) :
    e ≠ .inMethod method cause := by
  rintro rfl
  rcases Result.bind_eq_error.mp h with h | ⟨constant, -, h⟩
  · rw [get] at h
    split at h <;> cases h
  · split at h <;> cases h

/-- The text that stands for a method in its section: its own text; or a comment with the method and
the innermost cause of its failure; or a comment with the error, if the name or the descriptor of
the method cannot be read. -/
inductive Member.ShownAs (method : Member) (owner : String) (pool : Pool) (options : Options) :
    String → Prop
  | text {text : String} (h : method.methodText owner pool options = .ok text) :
    ShownAs method owner pool options text
  | failed {name descriptor : String} {cause : Error} (hname : pool.utf8 method.name = .ok name)
      (hdescriptor : pool.utf8 method.descriptor = .ok descriptor)
      (h : method.methodText owner pool options = .error (.inMethod (name ++ descriptor) cause)) :
    ShownAs method owner pool options
      ("// Failed to decompile method: " ++ (name ++ descriptor) ++ ": " ++ cause.root.message)
  | nameless {e : Error} (hname : pool.utf8 method.name = .error e ∨
        (∃ name, pool.utf8 method.name = .ok name) ∧ pool.utf8 method.descriptor = .error e)
      (h : method.methodText owner pool options = .error e) :
    ShownAs method owner pool options ("// Failed to decompile method: " ++ e.message)

/-- The comment for an error that blames no method is the error itself. -/
theorem ClassFile.failureComment_of_ne_inMethod {e : Error}
    (h : ∀ method cause, e ≠ .inMethod method cause) :
    failureComment e = "// Failed to decompile method: " ++ e.message := by
  unfold failureComment
  split
  · next method cause => exact absurd rfl (h method cause)
  · rfl

/-- A failing method is shown as the comment for its error. -/
theorem Member.shownAs_failureComment {method : Member} {owner : String} {pool : Pool}
    {options : Options} {e : Error} (h : method.methodText owner pool options = .error e) :
    method.ShownAs owner pool options (ClassFile.failureComment e) := by
  rcases Member.blames_of_methodText h with
    ⟨name, descriptor, cause, hname, hdescriptor, rfl⟩ | hname | ⟨hname, hdescriptor⟩
  · exact .failed hname hdescriptor h
  · rw [ClassFile.failureComment_of_ne_inMethod (Pool.ne_inMethod_of_utf8 hname)]
    exact .nameless (.inl hname) h
  · rw [ClassFile.failureComment_of_ne_inMethod (Pool.ne_inMethod_of_utf8 hdescriptor)]
    exact .nameless (.inr ⟨hname, hdescriptor⟩) h

namespace ClassFile

variable {c : ClassFile} {options : Options} {owner front : String}

/-! ### The front -/

/-- What the front of a class is made of can be read: the names of the class, of its superclass and
of its interfaces, and the names and types of its fields. -/
structure Resolves (c : ClassFile) : Prop where
  name : ∃ name, c.pool.className c.thisClass = .ok name
  superclass : c.superClass = 0 ∨ ∃ name, c.pool.className c.superClass = .ok name
  interfaces : ∀ index ∈ c.interfaces, ∃ name, c.pool.className index = .ok name
  fieldTypes : ∀ f ∈ c.fields, ∃ descriptor type,
    c.pool.utf8 f.descriptor = .ok descriptor ∧ Ty.ofDescriptor descriptor = .ok type
  fieldNames : ∀ f ∈ c.fields, ∃ name, c.pool.utf8 f.name = .ok name

theorem exists_superClause_iff :
    (∃ clause, c.superClause = .ok clause) ↔
      c.superClass = 0 ∨ ∃ name, c.pool.className c.superClass = .ok name := by
  by_cases hzero : c.superClass = 0
  · simp only [superClause, superName, hzero, true_or, iff_true]
    exact ⟨[], rfl⟩
  · simp [superClause, superName, hzero, Result.exists_map_eq_ok]

theorem exists_interfaceClause_iff :
    (∃ clause, c.interfaceClause = .ok clause) ↔
      ∀ index ∈ c.interfaces, ∃ name, c.pool.className index = .ok name := by
  simp [interfaceClause, Result.exists_map_eq_ok, Result.exists_mapM_eq_ok_iff]

/-- The header needs the names of the class, of its superclass and of its interfaces. -/
theorem exists_header_iff :
    (∃ header, c.header = .ok header) ↔ (∃ name, c.name = .ok name) ∧
      (∃ clause, c.superClause = .ok clause) ∧ ∃ clause, c.interfaceClause = .ok clause := by
  simp [header, Result.exists_bind_eq_ok, Result.exists_map_eq_ok]

theorem exists_fieldText_iff {f : Member} :
    (∃ text, c.fieldText options f = .ok text) ↔
      (∃ descriptor type, c.pool.utf8 f.descriptor = .ok descriptor ∧
        Ty.ofDescriptor descriptor = .ok type) ∧ ∃ name, c.pool.utf8 f.name = .ok name := by
  simp only [fieldText, bind_pure_comp, Result.exists_bind_eq_ok, Result.exists_map_eq_ok]
  constructor
  · rintro ⟨descriptor, hdescriptor, type, htype, hname⟩
    exact ⟨⟨descriptor, type, hdescriptor, htype⟩, hname⟩
  · rintro ⟨⟨descriptor, type, hdescriptor, htype⟩, hname⟩
    exact ⟨descriptor, hdescriptor, type, htype, hname⟩

/-- **The front of a class can be shown exactly if what it is made of can be read.** -/
theorem exists_frontText_iff : (∃ front, c.frontText options = .ok front) ↔ c.Resolves := by
  have hparts : (∃ front, c.frontText options = .ok front) ↔ (∃ name, c.name = .ok name) ∧
      (∃ header, c.header = .ok header) ∧
      ∀ f ∈ c.fields, ∃ text, c.fieldText options f = .ok text := by
    simp [frontText, Result.exists_bind_eq_ok, Result.exists_map_eq_ok,
      Result.exists_mapM_eq_ok_iff]
  simp only [hparts, exists_header_iff, exists_superClause_iff, exists_interfaceClause_iff,
    exists_fieldText_iff]
  constructor
  · rintro ⟨hname, ⟨-, hsuper, hinterfaces⟩, hfields⟩
    exact ⟨hname, hsuper, hinterfaces, fun f hf => (hfields f hf).1, fun f hf => (hfields f hf).2⟩
  · rintro ⟨hname, hsuper, hinterfaces, htypes, hnames⟩
    exact ⟨hname, ⟨hname, hsuper, hinterfaces⟩, fun f hf => ⟨htypes f hf, hnames f hf⟩⟩

/-- **The text of the front**: the package, if the class is in one, the header, and a line for each
field in order. -/
theorem frontText_eq_ok (h : c.frontText options = .ok front) :
    ∃ owner header lines, c.name = .ok owner ∧ c.header = .ok header ∧
      List.Forall₂ (fun f line => c.fieldText options f = .ok line) c.fields lines ∧
      front = ((Name.package? owner).map fun package =>
        "package " ++ Name.dotted package ++ ";\n\n").getD "" ++ header ++ " \x7b\n"
          ++ String.join lines := by
  obtain ⟨owner, hname, h⟩ := Result.bind_eq_ok.mp h
  obtain ⟨header, hheader, h⟩ := Result.bind_eq_ok.mp h
  obtain ⟨lines, hlines, h⟩ := Result.bind_eq_ok.mp h
  refine ⟨owner, header, lines, hname, hheader, Result.mapM_eq_ok.mp hlines, ?_⟩
  rw [← Result.pure_eq_ok.mp h]
  cases Name.package? owner <;> rfl

/-! ### Sections -/

/-- The class with other methods, all else being the same. -/
def withMethods (c : ClassFile) (methods : List Member) : ClassFile :=
  { c with methods }

/-- The section of a method of a class with the given name and pool, if failing methods are skipped.
A method that fails has its comment there. -/
def shownMethod (owner : String) (pool : Pool) (options : Options) (method : Member) : String :=
  indentedSection options <|
    match method.methodText owner pool options with
    | .ok text => text
    | .error e => failureComment e

/-- **What a section holds**: an empty line, and the text that stands for the method, line by line
behind the indent. -/
theorem exists_shownAs (owner : String) (pool : Pool) (options : Options) (method : Member) :
    ∃ shown, method.ShownAs owner pool options shown ∧
      shownMethod owner pool options method =
        "\n" ++ String.join ((Text.lines shown).map fun line =>
          options.indent ++ line ++ "\n") := by
  cases h : method.methodText owner pool options with
  | ok text => exact ⟨text, .text h, by rw [shownMethod, h, indentedSection]⟩
  | error e =>
    exact ⟨failureComment e, Member.shownAs_failureComment h,
      by rw [shownMethod, h, indentedSection]⟩

/-- The text of a class whose front can be shown: the sections of the methods behind it, in order,
as far as none of them fails. -/
theorem text_of_frontText (hname : c.name = .ok owner) (hfront : c.frontText options = .ok front)
    (skip : Bool) :
    c.text (options.skipping skip) = (do
      let sections ← c.methods.mapM fun method =>
        methodSection (options.skipping skip) (method.methodText owner c.pool options)
      return front ++ String.join sections ++ "\x7d\n") := by
  have hskip : c.frontText (options.skipping skip) = .ok front := hfront
  rw [text, hskip, methodTexts, hname]
  simp only [Member.methodText_skipping]
  rw [List.mapM_map]
  rfl

/-- A class whose front cannot be shown fails as the front does. -/
theorem text_of_frontText_error {e : Error} (h : c.frontText options = .error e) (skip : Bool) :
    c.text (options.skipping skip) = .error e :=
  Result.bind_eq_error.mpr (.inl h)

/-- **The sections are independent of each other** if failing methods are skipped. The text is the
front and the sections, and there is one for each method. -/
theorem text_skipping (hname : c.name = .ok owner) (hfront : c.frontText options = .ok front) :
    c.text (options.skipping true) = .ok
      (front ++ String.join (c.methods.map (shownMethod owner c.pool options)) ++ "\x7d\n") := by
  have hsection (method : Member) :
      methodSection (options.skipping true) (method.methodText owner c.pool options) =
        .ok (shownMethod owner c.pool options method) := by
    rw [shownMethod]
    rcases method.methodText owner c.pool options with e | text <;> rfl
  rw [text_of_frontText hname hfront, Result.mapM_eq_ok_map fun method _ => hsection method]
  rfl

/-- Without skipping, methods that do not fail are shown all the same. -/
theorem text_of_methodText_ok (hname : c.name = .ok owner)
    (hfront : c.frontText options = .ok front)
    (h : ∀ method ∈ c.methods, ∃ text, method.methodText owner c.pool options = .ok text) :
    c.text (options.skipping false) = c.text (options.skipping true) := by
  have hsection : ∀ method ∈ c.methods,
      methodSection (options.skipping false) (method.methodText owner c.pool options) =
        .ok (shownMethod owner c.pool options method) := by
    intro method hmethod
    obtain ⟨text, htext⟩ := h method hmethod
    rw [shownMethod, htext]
    rfl
  rw [text_skipping hname hfront, text_of_frontText hname hfront, Result.mapM_eq_ok_map hsection]
  rfl

/-- Without skipping, the first method that fails fails the class. -/
theorem text_of_methodText_error (hname : c.name = .ok owner)
    (hfront : c.frontText options = .ok front) {before after : List Member} {method : Member}
    {e : Error} (hmethods : c.methods = before ++ method :: after)
    (hbefore : ∀ m ∈ before, ∃ text, m.methodText owner c.pool options = .ok text)
    (he : method.methodText owner c.pool options = .error e) :
    c.text (options.skipping false) = .error e := by
  rw [text_of_frontText hname hfront]
  refine Result.bind_eq_error.mpr (.inl (Result.mapM_eq_error.mpr
    ⟨before, method, after, hmethods, fun m hm => ?_, ?_⟩))
  · obtain ⟨text, htext⟩ := hbefore m hm
    exact ⟨indentedSection options text, by rw [htext]; rfl⟩
  · rw [he]
    rfl

end ClassFile

open ClassFile in
/-- **A failing method leaves the rest of its class alone.** If failing methods are skipped, a class
cannot be shown exactly if its front cannot, whatever its methods. Otherwise its text is the front
(the package, the header and the fields) and one section for each method, in order. A section is an
empty line and the indented lines of the method, or of a comment on its failure; it depends on
nothing else of the class but its name and its pool, and another method in its place changes that
section only. If failing methods are not skipped, the text is the same where no method fails, and
otherwise the class fails as the first failing method does. -/
theorem methods_fail_alone (c : ClassFile) (options : Options) :
    ((∃ e, c.text (options.skipping true) = .error e) ↔ ¬ c.Resolves) ∧
    (¬ c.Resolves → c.text (options.skipping false) = c.text (options.skipping true)) ∧
    (c.Resolves → ∃ owner front header lines, c.name = .ok owner ∧
      c.frontText options = .ok front ∧ c.header = .ok header ∧
      List.Forall₂ (fun f line => c.fieldText options f = .ok line) c.fields lines ∧
      front = ((Name.package? owner).map fun package =>
        "package " ++ Name.dotted package ++ ";\n\n").getD "" ++ header ++ " \x7b\n"
          ++ String.join lines ∧
      (∀ method : Member, ∃ shown, method.ShownAs owner c.pool options shown ∧
        shownMethod owner c.pool options method =
          "\n" ++ String.join ((Text.lines shown).map fun line => options.indent ++ line ++ "\n")) ∧
      (∀ methods : List Member, (c.withMethods methods).text (options.skipping true) = .ok
        (front ++ String.join (methods.map (shownMethod owner c.pool options)) ++ "\x7d\n")) ∧
      (∀ before after : List Member, ∃ head tail, ∀ method : Member,
        (c.withMethods (before ++ method :: after)).text (options.skipping true) = .ok
          (head ++ shownMethod owner c.pool options method ++ tail)) ∧
      ((∀ method ∈ c.methods, ∃ text, method.methodText owner c.pool options = .ok text) →
        c.text (options.skipping false) = c.text (options.skipping true)) ∧
      ∀ (before after : List Member) (method : Member) (e : Error),
        c.methods = before ++ method :: after →
        (∀ m ∈ before, ∃ text, m.methodText owner c.pool options = .ok text) →
        method.methodText owner c.pool options = .error e →
        c.text (options.skipping false) = .error e ∧ method.Blames c.pool e) := by
  have hfails (hresolves : ¬ c.Resolves) :
      ∃ e, ∀ skip, c.text (options.skipping skip) = .error e := by
    rcases hfront : c.frontText options with e | front
    · exact ⟨e, text_of_frontText_error hfront⟩
    · exact absurd (exists_frontText_iff.mp ⟨front, hfront⟩) hresolves
  have hshown (hresolves : c.Resolves) :
      ∃ owner front, c.name = .ok owner ∧ c.frontText options = .ok front := by
    obtain ⟨owner, hname⟩ := hresolves.name
    obtain ⟨front, hfront⟩ := exists_frontText_iff.mpr hresolves
    exact ⟨owner, front, hname, hfront⟩
  refine ⟨⟨?_, ?_⟩, ?_, ?_⟩
  · rintro ⟨e, he⟩ hresolves
    obtain ⟨owner, front, hname, hfront⟩ := hshown hresolves
    rw [text_skipping hname hfront] at he
    cases he
  · intro hresolves
    obtain ⟨e, he⟩ := hfails hresolves
    exact ⟨e, he true⟩
  · intro hresolves
    obtain ⟨e, he⟩ := hfails hresolves
    rw [he, he]
  · intro hresolves
    obtain ⟨owner, front, hname, hfront⟩ := hshown hresolves
    obtain ⟨owner', header, lines, hname', hheader, hlines, heq⟩ := frontText_eq_ok hfront
    obtain rfl := Except.ok.inj (hname.symm.trans hname')
    -- neither the name nor the front of a class changes with its methods
    have htext (methods : List Member) : (c.withMethods methods).text (options.skipping true) = .ok
        (front ++ String.join (methods.map (shownMethod owner c.pool options)) ++ "\x7d\n") :=
      text_skipping (c := c.withMethods methods) hname hfront
    refine ⟨owner, front, header, lines, hname, hfront, hheader, hlines, heq,
      exists_shownAs owner c.pool options, htext, fun before after => ?_,
      text_of_methodText_ok hname hfront, fun before after method e hmethods hbefore he =>
        ⟨text_of_methodText_error hname hfront hmethods hbefore he,
          Member.blames_of_methodText he⟩⟩
    refine ⟨front ++ String.join (before.map (shownMethod owner c.pool options)),
      String.join (after.map (shownMethod owner c.pool options)) ++ "\x7d\n", fun method => ?_⟩
    rw [htext]
    simp [String.append_assoc]

open ClassFile in
/-- A method without a body behind one that has none by its flags. -/
theorem methods_fail_alone_of_missing_code :
    ∃ c : ClassFile, c.Resolves ∧
      c.text (Options.skipping {} true) = .ok (String.join ["abstract class A \x7b\n",
        "\n\tabstract void m();\n",
        "\n\t// Failed to decompile method: m()V: missing Code attribute\n", "\x7d\n"]) ∧
      c.text (Options.skipping {} false) =
        .error (.inMethod "m()V" (.missingAttribute "Code")) := by
  let c : ClassFile :=
    { pool := ⟨#[.utf8 "A", .classRef 1, .utf8 "m", .utf8 "()V"]⟩
      flags := ⟨0x0400⟩
      thisClass := 2
      superClass := 0
      interfaces := []
      fields := []
      methods := [.ofParts ⟨0x0400⟩ 3 4 [], .ofParts ⟨0⟩ 3 4 []] }
  have hclass : c.name = .ok "A" := by
    decide +kernel
  have hresolves : c.Resolves :=
    ⟨⟨"A", hclass⟩, .inl rfl, by simp [c], by simp [c], by simp [c]⟩
  obtain ⟨owner, front, header, lines, hname, hfront, -, -, -, -, htext, -, -, hfails⟩ :=
    (methods_fail_alone c {}).2.2 hresolves
  obtain rfl : "A" = owner := Except.ok.inj (hclass.symm.trans hname)
  have habstract : c.frontText {} = .ok "abstract class A \x7b\n" := by
    decide +kernel
  obtain rfl : "abstract class A \x7b\n" = front := Except.ok.inj (habstract.symm.trans hfront)
  have hshown : (Member.ofParts ⟨0x0400⟩ 3 4 []).methodText "A" c.pool {} =
      .ok "abstract void m();" := by
    decide +kernel
  have hmissing : (Member.ofParts ⟨0⟩ 3 4 []).methodText "A" c.pool {} =
      .error (.inMethod "m()V" (.missingAttribute "Code")) := by
    decide +kernel
  have hcomment : failureComment (.inMethod "m()V" (.missingAttribute "Code")) =
      "// Failed to decompile method: m()V: missing Code attribute" := by
    rfl
  have hsections : c.methods.map (shownMethod "A" c.pool {}) = ["\n\tabstract void m();\n",
      "\n\t// Failed to decompile method: m()V: missing Code attribute\n"] := by
    simp only [c, List.map_cons, List.map_nil, shownMethod]
    rw [hshown, hmissing]
    dsimp only
    rw [hcomment]
    decide +kernel
  refine ⟨c, hresolves, (htext c.methods).trans ?_, (hfails [_] [] _ _ rfl ?_ hmissing).1⟩
  · rw [hsections]
    rfl
  · intro m hm
    rw [List.mem_singleton.mp hm]
    exact ⟨_, hshown⟩

end JvmSource
