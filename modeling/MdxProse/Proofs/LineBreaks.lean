import MdxProse.Proofs.Failures
import MdxProse.Proofs.PlainLines

/-!
# Line breaks

A text breaks its lines with `\n`, with `\r\n` or with `\r`, and may mix them.  Whoever numbers the
characters of a text goes by one rule: a pair counts as one character, and so does a `\r` that
stands alone.  A document follows the rule when it is made from a text, and whoever reads the text
of a document follows it once more.  Nothing may be left to do the second time, or the spans that a
reader finds would cover other characters of the document.

* `Text.ReadAs`: the rule, said without the function that follows it.
* `Text.normalize_eq_iff`: **normalising follows the rule**, which leaves no choice.
* `Text.ReadAs.notMem`: what is read holds no `\r` and no NUL.  `Text.readAs_self_iff`: exactly the
  texts that hold neither are read as they are.
* `Document.ofString_eq_iff`: the texts that a document is made from.  `Document.ofString_text`:
  its own text is one of them.
* `Text.respell`: the text with its line feeds spelled in another way.  `Text.ReadAs.respell`: **it
  is read as before.**
* `characters_shared`: what this comes to for documents, readers and conversions.
-/

namespace MdxProse

namespace Text

variable {b s t u : List Char} {c : Char}

/-! ### How a text is read -/

/-- The text `s` is read as `t`: a pair `\r\n` as one line feed, and so a `\r` that no `\n` follows;
a NUL as the replacement character; every other character as itself. -/
inductive ReadAs : List Char → List Char → Prop
  | nil : ReadAs [] []
  | pair {s t : List Char} (rest : ReadAs s t) : ReadAs ('\r' :: '\n' :: s) ('\n' :: t)
  | alone {s t : List Char} (next : s.head? ≠ some '\n') (rest : ReadAs s t) :
      ReadAs ('\r' :: s) ('\n' :: t)
  | nul {s t : List Char} (rest : ReadAs s t) : ReadAs ('\x00' :: s) (replacement :: t)
  | char {c : Char} {s t : List Char} (hreturn : c ≠ '\r') (hnul : c ≠ '\x00')
      (rest : ReadAs s t) : ReadAs (c :: s) (c :: t)

theorem unifyBreaks_alone (next : s.head? ≠ some '\n') :
    unifyBreaks ('\r' :: s) = '\n' :: unifyBreaks s := by
  rw [unifyBreaks]
  rintro r rfl
  exact next rfl

theorem replaceNul_cons (hnul : c ≠ '\x00') (s : List Char) :
    replaceNul (c :: s) = c :: replaceNul s := by
  rw [replaceNul, List.map_cons, if_neg (by simpa using hnul)]
  rfl

theorem readAs_normalize (s : List Char) : ReadAs s (normalize s) := by
  rw [normalize]
  induction s using unifyBreaks.induct with
  | case1 => exact .nil
  | case2 s ih => exact .pair ih
  | case3 s hnext ih =>
    have next : s.head? ≠ some '\n' := by
      intro h
      obtain ⟨r, rfl⟩ := List.head?_eq_some_iff.mp h
      exact hnext r rfl
    rw [unifyBreaks_alone next]
    exact .alone next ih
  | case4 c s _ hreturn ih =>
    rw [unifyBreaks_cons hreturn]
    by_cases hnul : c = '\x00'
    · rw [hnul]
      exact .nul ih
    · rw [replaceNul_cons hnul]
      exact .char hreturn hnul ih

theorem ReadAs.normalize_eq (h : ReadAs s t) : normalize s = t := by
  rw [normalize]
  induction h with
  | nil => rfl
  | pair _ ih => exact congrArg ('\n' :: ·) ih
  | alone next _ ih =>
    rw [unifyBreaks_alone next]
    exact congrArg ('\n' :: ·) ih
  | nul _ ih => exact congrArg (replacement :: ·) ih
  | char hreturn hnul _ ih => rw [unifyBreaks_cons hreturn, replaceNul_cons hnul, ih]

/-- **Normalising follows the rule**, and the rule leaves no choice. -/
theorem normalize_eq_iff : normalize s = t ↔ ReadAs s t := by
  constructor
  · rintro rfl
    exact readAs_normalize s
  · exact ReadAs.normalize_eq

/-- The order of the breaks counts: `\r\r\n\n` is three of them, and `\n\r\n\r` as well. -/
example : normalize "\r\r\n\n".toList = "\n\n\n".toList ∧
    normalize "\n\r\n\r".toList = "\n\n\n".toList := by decide

/-! ### Texts that are read as they are -/

theorem ReadAs.notMem (h : ReadAs s t) : '\r' ∉ t ∧ '\x00' ∉ t := by
  induction h with
  | nil => simp
  | pair _ ih => simpa using ih
  | alone _ _ ih => simpa using ih
  | nul _ ih =>
    have hreplacement : '\r' ≠ replacement ∧ '\x00' ≠ replacement := by decide
    simp [hreplacement, ih]
  | char hreturn hnul _ ih => simp [hreturn.symm, hnul.symm, ih]

theorem readAs_self_iff : ReadAs t t ↔ '\r' ∉ t ∧ '\x00' ∉ t := by
  constructor
  · exact ReadAs.notMem
  · rintro ⟨hreturn, hnul⟩
    rw [← normalize_eq_iff, normalize, unifyBreaks_eq hreturn, replaceNul_eq hnul]

/-- **What is read is read as it is**, and as nothing else. -/
theorem ReadAs.again_iff (h : ReadAs s t) : ReadAs t u ↔ u = t := by
  have hself : ReadAs t t := readAs_self_iff.mpr h.notMem
  constructor
  · intro hu
    rw [← hu.normalize_eq, hself.normalize_eq]
  · rintro rfl
    exact hself

/-! ### Other ways to break lines -/

/-- The text with `b` in the place of each line feed. -/
def respell (b s : List Char) : List Char :=
  s.flatMap fun c => if c = '\n' then b else [c]

/-- A break with a carriage return. -/
def IsReturn (b : List Char) : Prop :=
  b = ['\r'] ∨ b = ['\r', '\n']

theorem respell_break (b s : List Char) : respell b ('\n' :: s) = b ++ respell b s := by
  rw [respell, List.flatMap_cons, if_pos rfl]
  rfl

theorem respell_cons (hc : c ≠ '\n') (b s : List Char) :
    respell b (c :: s) = c :: respell b s := by
  rw [respell, List.flatMap_cons, if_neg hc]
  rfl

/-- A line feed is left only inside a pair. -/
theorem IsReturn.head?_respell (hb : IsReturn b) (s : List Char) :
    (respell b s).head? ≠ some '\n' := by
  cases s with
  | nil => nofun
  | cons c s =>
    by_cases hc : c = '\n'
    · rw [hc, respell_break]
      rcases hb with rfl | rfl <;> simp
    · rw [respell_cons hc]
      simpa using hc

theorem IsReturn.readAs (hb : IsReturn b) (next : s.head? ≠ some '\n') (rest : ReadAs s t) :
    ReadAs (b ++ s) ('\n' :: t) := by
  rcases hb with rfl | rfl
  · exact .alone next rest
  · exact .pair rest

/-- **A text without carriage returns is read the same with its line feeds spelled otherwise.** -/
theorem ReadAs.respell (hb : IsReturn b) (hreturn : '\r' ∉ s) (h : ReadAs s t) :
    ReadAs (respell b s) t := by
  induction h with
  | nil => exact .nil
  | pair _ _ => exact absurd List.mem_cons_self hreturn
  | alone _ _ _ => exact absurd List.mem_cons_self hreturn
  | nul _ ih =>
    rw [respell_cons (by decide)]
    exact .nul (ih (List.not_mem_of_not_mem_cons hreturn))
  | @char c s t hc hnul _ ih =>
    have ih := ih (List.not_mem_of_not_mem_cons hreturn)
    by_cases hbreak : c = '\n'
    · -- the break stands before a text that does not start with a line feed
      rw [hbreak, respell_break]
      exact hb.readAs (hb.head?_respell s) ih
    · rw [respell_cons hbreak]
      exact .char hc hnul ih

end Text

/-! ### Documents -/

namespace Document

variable {text : String} {d : Document}

theorem toList_text (d : Document) : d.text.toList = d.source.toList :=
  String.toList_ofList

/-- **A document is made from the texts that are read as its characters.** -/
theorem ofString_eq_iff : ofString text = d ↔ Text.ReadAs text.toList d.text.toList := by
  rw [← Text.normalize_eq_iff, toList_text]
  constructor
  · rintro rfl
    rfl
  · intro h
    obtain ⟨source⟩ := d
    rw [ofString, h]

theorem readAs_text (text : String) : Text.ReadAs text.toList (ofString text).text.toList :=
  ofString_eq_iff.mp rfl

theorem ofString_text (text : String) : ofString (ofString text).text = ofString text :=
  ofString_eq_iff.mpr ((readAs_text text).again_iff.mpr rfl)

/-- **Carriage returns in the place of line feeds make the same document.** -/
theorem ofString_respell {b : List Char} (hb : Text.IsReturn b) (hreturn : '\r' ∉ text.toList) :
    ofString (String.ofList (Text.respell b text.toList)) = ofString text := by
  rw [ofString_eq_iff, String.toList_ofList]
  exact (readAs_text text).respell hb hreturn

end Document

theorem convert_html_of_read {text : String} {e : SyntaxError}
    (h : (Document.ofString text).read = .error e) (framework : Option String)
    (settings : Settings) : (convert text framework settings).html = .error (.invalid e) := by
  rw [convert_html_eq_error_iff, Document.render, h]
  rfl

/-- **Documents and readers number the same characters.**  The text of a document is what the text
that it is made from is read as.  It holds no carriage return and no NUL, so whoever reads it finds
nothing to do, and a document that is made from it has the same characters and the same tree.  A
text without carriage returns may have all its line feeds spelled in one of the two other ways: the
document keeps its text, and the conversion its outcome, be that HTML or an error with its line. -/
theorem characters_shared (text : String) (framework : Option String) (settings : Settings) :
    let d := Document.ofString text
    Text.ReadAs text.toList d.text.toList ∧
    '\r' ∉ d.text.toList ∧ '\x00' ∉ d.text.toList ∧
    (∀ w, Text.ReadAs d.text.toList w ↔ w = d.text.toList) ∧
    normalize d.text.toList = d.text.toList ∧
    Document.ofString d.text = d ∧ (Document.ofString d.text).read = d.read ∧
    ('\r' ∉ text.toList → ∀ b ∈ ["\r\n".toList, "\r".toList],
      (Document.ofString (String.ofList (Text.respell b text.toList))).text = d.text ∧
      convert (String.ofList (Text.respell b text.toList)) framework settings =
        convert text framework settings) := by
  intro d
  have hread : Text.ReadAs text.toList d.text.toList := Document.readAs_text text
  have hagain : Document.ofString d.text = d := Document.ofString_text text
  refine ⟨hread, hread.notMem.1, hread.notMem.2, fun w => hread.again_iff, ?_, hagain, ?_, ?_⟩
  · exact (hread.again_iff.mpr rfl).normalize_eq
  · rw [hagain]
  · intro hreturn b hb
    have hb : Text.IsReturn b := by
      rcases List.mem_cons.mp hb with rfl | hb
      · exact .inr rfl
      · exact .inl (List.mem_singleton.mp hb)
    have hsame := Document.ofString_respell hb hreturn
    refine ⟨by rw [hsame], ?_⟩
    rw [convert, hsame, ← convert]

/-- A closing tag is not expected on line 3, after a paragraph with a NUL and an empty line. -/
theorem characters_shared_stray : ∃ text text' text'' e,
    text = "a\x00\n\n</C>" ∧ text' = "a\x00\r\n\r\n</C>" ∧ text'' = "a\x00\r\r</C>" ∧
    e = ⟨.strayClosingTag "</C>", some 3⟩ ∧ '\r' ∉ text.toList ∧
    (Document.ofString text').text = (Document.ofString text).text ∧
    (Document.ofString text'').text = (Document.ofString text).text ∧
    (convert text none (Settings.ofVariables [])).html = .error (.invalid e) ∧
    (convert text' none (Settings.ofVariables [])).html = .error (.invalid e) ∧
    (convert text'' none (Settings.ofVariables [])).html = .error (.invalid e) := by
  have hreturn : '\r' ∉ "a\x00\n\n</C>".toList := by decide
  have herror := convert_html_of_read (e := ⟨.strayClosingTag "</C>", some 3⟩)
    (Document.read_of_error? (d := .ofString "a\x00\n\n</C>") (by decide +kernel)) none
    (Settings.ofVariables [])
  obtain ⟨-, -, -, -, -, -, -, hspell⟩ :=
    characters_shared "a\x00\n\n</C>" none (Settings.ofVariables [])
  obtain ⟨hpair, hpair'⟩ := hspell hreturn "\r\n".toList (by decide)
  obtain ⟨halone, halone'⟩ := hspell hreturn "\r".toList (by decide)
  exact ⟨_, "a\x00\r\n\r\n</C>", "a\x00\r\r</C>", _, rfl, rfl, rfl, rfl, hreturn, hpair, halone,
    herror, by rw [← herror, ← hpair']; rfl, by rw [← herror, ← halone']; rfl⟩

end MdxProse
