import SampleSchema.Proofs.TornTexts
import SampleSchema.SampleFile
/-!
# Files with a document on each line

A file is written with the compact text of each value on a line of its own, and is then read line by
line. `samples_writeLines` says when that gives the values back, and that the file is refused if
it does not.

The reader cuts at the first line boundary that it finds. If the text has none, the cut is at the
line feed behind it, and the line is the text. If it has one, the line is a piece of the text, and
that is malformed (`Json.parse_torn`). One lemma is about each case (`readLines_of_isOneLine`,
`readLines_torn`), and they are put together along the list of values.
-/

namespace SampleSchema

open Text

/-! ## Lines -/

namespace Text

/-- The first line ends at the first boundary. -/
theorem lines_append {before : List Char} (hbefore : IsOneLine before) {c : Char}
    (hc : isLineEnd c = true) (rest : List Char) :
    lines (before ++ c :: rest) = before :: lines rest := by
  induction before with
  | nil => rw [List.nil_append, lines, if_pos hc]
  | cons d before ih =>
    obtain ⟨hd, hbefore⟩ := isOneLine_cons_iff.mp hbefore
    rw [List.cons_append, lines, if_neg (by rw [hd]; decide), ih hbefore]

theorem unifyNewlines_cons {c : Char} (hc : c ≠ '\r') (rest : List Char) :
    unifyNewlines (c :: rest) = c :: unifyNewlines rest := by
  rw [unifyNewlines]
  · rintro more rfl
    exact absurd rfl hc
  · exact hc

theorem unifyNewlines_append {before : List Char} (hbefore : IsOneLine before)
    (rest : List Char) : unifyNewlines (before ++ rest) = before ++ unifyNewlines rest := by
  induction before with
  | nil => rfl
  | cons d before ih =>
    obtain ⟨hd, hbefore⟩ := isOneLine_cons_iff.mp hbefore
    have hreturn : d ≠ '\r' := (ne_of_isLineEnd rfl hd).symm
    rw [List.cons_append, unifyNewlines_cons hreturn, ih hbefore, List.cons_append]

/-- A carriage return becomes a line feed, which ends a line as well. -/
theorem exists_unifyNewlines_cons {c : Char} (hc : isLineEnd c = true) (rest : List Char) :
    ∃ d more, unifyNewlines (c :: rest) = d :: more ∧ isLineEnd d = true := by
  unfold unifyNewlines
  split
  · exact ⟨'\n', _, rfl, rfl⟩
  · exact ⟨'\n', _, rfl, rfl⟩
  · rename_i heq
    obtain ⟨rfl, rfl⟩ := List.cons.inj heq
    exact ⟨c, _, rfl, hc⟩
  · contradiction

theorem exists_first_lineEnd {cs : List Char} (h : ¬ IsOneLine cs) :
    ∃ before c after, cs = before ++ c :: after ∧ IsOneLine before ∧ isLineEnd c = true := by
  have hsome : (cs.find? isLineEnd).isSome = true := by
    rw [List.find?_isSome]
    simpa [IsOneLine] using h
  obtain ⟨c, hfind⟩ := Option.isSome_iff_exists.mp hsome
  obtain ⟨hc, before, after, hcs, hbefore⟩ := List.find?_eq_some_iff_append.mp hfind
  exact ⟨before, c, after, hcs, fun d hd => by simpa using hbefore d hd, hc⟩

end Text

namespace SampleFile

/-! ## Writing -/

/-- The text of a file that has each text on a line of its own. -/
def lineText (texts : List String) : List Char :=
  texts.flatMap fun text => text.toList ++ ['\n']

/-- The octets of a file that has the compact text of each value on a line of its own. -/
def writeLines (values : List Value) : Except Json.PrintFault (List UInt8) := do
  let texts ← values.mapM (Json.print "")
  return encodeUtf8 (String.ofList (lineText texts))

/-! ## Reading -/

/-- The documents on the lines of a text. -/
def readLines (cs : List Char) : Except Error (List Value) :=
  (documentTexts true (unifyNewlines cs)).mapM fun line => Session.parse (String.ofList line)

theorem isBlankText_of_head {c : Char} {tail : List Char} (hc : isBlank c = false) :
    isBlankText (c :: tail) = false := by
  rw [isBlankText, List.all_cons, hc, Bool.false_and]

/-- A text without line boundaries is read as one line. -/
theorem readLines_of_isOneLine {c : Char} {tail : List Char} (hc : isBlank c = false)
    (hline : IsOneLine (c :: tail)) (rest : List Char) :
    readLines (c :: tail ++ '\n' :: rest) = do
      let document ← Session.parse (String.ofList (c :: tail))
      return document :: (← readLines rest) := by
  have hfeed : isLineEnd '\n' = true := rfl
  rw [readLines, documentTexts, if_pos rfl, unifyNewlines_append hline,
    unifyNewlines_cons (by decide), lines_append hline hfeed,
    List.filter_cons_of_pos (by rw [isBlankText_of_head hc]; rfl), List.mapM_cons]
  rfl

/-- A text with a line boundary is torn there, and the document ends with the first piece. -/
theorem readLines_torn {d : Char} {piece : List Char} (hd : isBlank d = false)
    (hline : IsOneLine (d :: piece)) {c : Char} (hc : isLineEnd c = true) (rest : List Char)
    {error : Error} (hparse : Session.parse (String.ofList (d :: piece)) = .error error) :
    readLines (d :: piece ++ c :: rest) = .error error := by
  obtain ⟨e, more, hunify, he⟩ := exists_unifyNewlines_cons hc rest
  rw [readLines, documentTexts, if_pos rfl, unifyNewlines_append hline, hunify,
    lines_append hline he, List.filter_cons_of_pos (by rw [isBlankText_of_head hd]; rfl),
    List.mapM_cons, hparse]
  rfl

/-! ## Written and read -/

section Written

variable {v : Value} (hv : v.everywhere Value.isJson = true) {text : String}
  (htext : Json.print "" v = .ok text) (rest : List Char)

include htext in
theorem printValue_of_print : Json.printValue [] 0 v = .ok text.toList := by
  unfold Json.print at htext
  cases hprint : Json.printValue "".toList 0 v with
  | error fault =>
    rw [hprint] at htext
    exact nomatch htext
  | ok cs =>
    rw [hprint] at htext
    obtain rfl := Except.ok.inj htext
    rw [String.toList_ofList]
    exact hprint

include hv htext

theorem readLines_of_isUnbroken (hunbroken : v.everywhere Value.isUnbroken = true) :
    readLines (text.toList ++ '\n' :: rest) = do return v :: (← readLines rest) := by
  have hprint := printValue_of_print htext
  have hline : IsOneLine text.toList := (Json.isOneLine_printValue_iff hv hprint).mpr hunbroken
  have hparse : Session.parse text = .ok v := Session.parse_of_print (by simp) hv htext
  obtain ⟨c, tail, hcs, hblank⟩ := Json.head_printValue hprint
  rw [hcs] at hline
  rw [hcs, readLines_of_isOneLine hblank hline rest, ← hcs, String.ofList_toList, hparse]
  rfl

theorem readLines_of_not_isUnbroken (hbroken : v.everywhere Value.isUnbroken = false) :
    ∃ fault, readLines (text.toList ++ '\n' :: rest) = .error (.malformedSample fault) := by
  have hprint := printValue_of_print htext
  have hline : ¬ IsOneLine text.toList := by
    rw [Json.isOneLine_printValue_iff hv hprint, hbroken]
    decide
  obtain ⟨before, c, after, hcs, hbefore, hc⟩ := exists_first_lineEnd hline
  rw [hcs] at hprint
  obtain ⟨fault, hparse⟩ := Json.parse_torn hv hprint hc
  obtain ⟨d, piece, rfl, hblank, -⟩ := Json.head_torn hv hprint hc
  refine ⟨fault, ?_⟩
  rw [hcs, List.append_assoc]
  exact readLines_torn hblank hbefore hc _ hparse

end Written

theorem lineText_cons (text : String) (texts : List String) :
    lineText (text :: texts) = text.toList ++ '\n' :: lineText texts := by
  rw [lineText, List.flatMap_cons, List.append_assoc]
  rfl

section File

variable {values : List Value} {texts : List String}
  (htexts : List.Forall₂ (fun v text => Json.print "" v = .ok text) values texts)
include htexts

theorem readLines_lineText (hvalues : ∀ v ∈ values, v.everywhere Value.isJson = true)
    (hunbroken : ∀ v ∈ values, v.everywhere Value.isUnbroken = true) :
    readLines (lineText texts) = .ok values := by
  induction htexts with
  | nil => rfl
  | cons htext _ ih =>
    obtain ⟨hv, hvalues⟩ := List.forall_mem_cons.mp hvalues
    obtain ⟨hfirst, hunbroken⟩ := List.forall_mem_cons.mp hunbroken
    rw [lineText_cons, readLines_of_isUnbroken hv htext _ hfirst, ih hvalues hunbroken]
    rfl

/-- The first text that is torn decides: those before it are read, and those behind it do not
matter. -/
theorem readLines_lineText_of_not_isUnbroken
    (hvalues : ∀ v ∈ values, v.everywhere Value.isJson = true)
    (hbroken : ∃ v ∈ values, v.everywhere Value.isUnbroken = false) :
    ∃ fault, readLines (lineText texts) = .error (.malformedSample fault) := by
  induction htexts with
  | nil => exact absurd hbroken (by simp)
  | @cons v text values texts htext _ ih =>
    obtain ⟨hv, hvalues⟩ := List.forall_mem_cons.mp hvalues
    rw [lineText_cons]
    cases hfirst : v.everywhere Value.isUnbroken with
    | false => exact readLines_of_not_isUnbroken hv htext _ hfirst
    | true =>
      obtain ⟨w, hw, hbrokenw⟩ := hbroken
      rcases List.mem_cons.mp hw with rfl | hw
      · rw [hfirst] at hbrokenw
        exact nomatch hbrokenw
      · obtain ⟨fault, hrest⟩ := ih hvalues ⟨w, hw, hbrokenw⟩
        refine ⟨fault, ?_⟩
        rw [readLines_of_isUnbroken hv htext _ hfirst, hrest]
        rfl

end File

/-! ## Samples -/

/-- Without a path, the documents are the samples. -/
theorem samples_byLine_null {octets : List UInt8} {cs : List Char}
    (h : decodeUtf8 octets = .ok cs) : samples octets true .null = readLines cs := by
  have hpath : ∀ documents : List Value,
      (documents.mapM fun document => RecordPath.recordsAt .null document Host.plain.follow) =
        .ok (documents.map fun v => [v]) := by
    intro documents
    refine mapM_of_forall₂ (List.forall₂_map_right_iff.mpr (List.forall₂_same.mpr ?_))
    exact fun v _ => rfl
  have htext : SampleFile.text octets = .ok (unifyNewlines cs) := by rw [SampleFile.text, h]
  rw [samples, htext, except_ok_bind]
  change (readLines cs >>= fun documents => _) = _
  cases readLines cs with
  | error error => rfl
  | ok documents =>
    rw [except_ok_bind, hpath]
    exact congrArg Except.ok (by rw [← List.flatMap_def]; simp)

/-- **A file with a document on each line gives the documents back**, if no string in them holds a
line boundary that is no control. If one does, its document is malformed. -/
theorem samples_writeLines {values : List Value}
    (hvalues : ∀ v ∈ values, v.everywhere Value.isJson = true) :
    ∃ octets, writeLines values = .ok octets ∧
      ((∀ v ∈ values, v.everywhere Value.isUnbroken = true) →
        samples octets true .null = .ok values) ∧
      ((∃ v ∈ values, v.everywhere Value.isUnbroken = false) →
        ∃ fault, samples octets true .null = .error (.malformedSample fault)) := by
  obtain ⟨texts, htexts⟩ := exists_forall₂ fun v hv =>
    Json.exists_print_of_isJson "" (hvalues v hv)
  have hdecode : decodeUtf8 (encodeUtf8 (String.ofList (lineText texts))) =
      .ok (lineText texts) := by
    rw [decodeUtf8_encodeUtf8, String.toList_ofList]
  refine ⟨encodeUtf8 (String.ofList (lineText texts)), ?_, ?_, ?_⟩
  · rw [writeLines, mapM_of_forall₂ htexts]
    rfl
  · intro hunbroken
    rw [samples_byLine_null hdecode]
    exact readLines_lineText htexts hvalues hunbroken
  · intro hbroken
    rw [samples_byLine_null hdecode]
    exact readLines_lineText_of_not_isUnbroken htexts hvalues hbroken

/-- A sample that is one line wherever it is written, and one that holds a separator of lines. -/
def separatedSamples : List Value :=
  [.object [("a", .int 1)], .str "\u2028"]

theorem samples_writeLines_separatedSamples :
    (∃ octets, writeLines (separatedSamples.take 1) = .ok octets ∧
      samples octets true .null = .ok (separatedSamples.take 1)) ∧
    ∃ octets fault, writeLines separatedSamples = .ok octets ∧
      samples octets true .null = .error (.malformedSample fault) := by
  have hfirst : ∀ v ∈ separatedSamples.take 1, v.everywhere Value.isJson = true := by decide
  have hboth : ∀ v ∈ separatedSamples, v.everywhere Value.isJson = true := by decide
  constructor
  · obtain ⟨octets, hwrite, hread, -⟩ := samples_writeLines hfirst
    exact ⟨octets, hwrite, hread (by decide)⟩
  · obtain ⟨octets, hwrite, -, hrefuse⟩ := samples_writeLines hboth
    have hlast : .str "\u2028" ∈ separatedSamples := List.mem_cons_of_mem _ List.mem_cons_self
    obtain ⟨fault, hfault⟩ := hrefuse ⟨.str "\u2028", hlast, by decide⟩
    exact ⟨octets, fault, hwrite, hfault⟩

theorem writeLines_separator :
    writeLines [.str "\u2028"] = .ok [0x22, 0xe2, 0x80, 0xa8, 0x22, 0x0a] := by
  have htexts : [Value.str "\u2028"].mapM (Json.print "") = .ok ["\"\u2028\""] := rfl
  rw [writeLines, htexts, except_ok_bind, encodeUtf8_eq_flatMap]
  rfl

/-- So not every list of values is read back: a separator of lines alone is torn. -/
theorem not_samples_writeLines_separator :
    ¬ ∀ values : List Value, (∀ v ∈ values, v.everywhere Value.isJson = true) →
      ∃ octets, writeLines values = .ok octets ∧ samples octets true .null = .ok values := by
  intro h
  obtain ⟨octets, hwrite, hread⟩ := h [.str "\u2028"] (by decide)
  rw [writeLines_separator] at hwrite
  obtain rfl := Except.ok.inj hwrite
  exact nomatch hread

end SampleFile

end SampleSchema
