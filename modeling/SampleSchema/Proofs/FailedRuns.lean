import SampleSchema.Proofs.Octets
import SampleSchema.Proofs.RunSessions
/-!
# What a failed run leaves behind

A run reads everything before it opens its output file, and it makes the document after that. So a
run that fails earlier leaves the folder as it was. One that fails with the document has emptied
the output file by then. Only three things can still be wrong: there was no sample at all, the
document has a number that is not finite (`documentLine_eq_error`), or its text has half of a
surrogate pair, which no file can hold (`exists_half_of_encodable_eq_error`).

`after_run_of_failed` says which of these a failed run is, whatever the host makes of patterns, paths
and names.
-/

namespace SampleSchema.CommandLine

/-! ## The document -/

/-- What can be wrong with the document of a session that was given what was read. -/
theorem documentLine_eq_error {settings : Settings} {started session : Session} {url : String}
    (hurl : settings.version = .str url) (hstart : Session.start settings = .ok started)
    (hreads : started.Reads session) {error : Error} (h : documentLine session = .error error) :
    session.count = 0 ∧ error = .noSamples ∨ error = .unprintable .notFinite := by
  have htext : session.text = .error error := by
    rcases except_bind_eq_error h with htext | ⟨text, -, hline⟩
    · exact htext
    · exact nomatch hline
  rcases except_bind_eq_error htext with hnone | ⟨document, hdocument, hprint⟩
  · exact .inl (Session.document_eq_error_iff.mp hnone)
  · obtain ⟨calls, hcalls, rfl⟩ := hreads
    have hversion : settings.version.everywhere Value.isReadable = true := by
      rw [hurl]
      rfl
    have hreadable := Session.everywhere_toValue_of_start hstart hdocument
      Value.regular_isReadable hversion
      fun call hcall session change hchange => (hcalls call hcall).everywhere_value session hchange
    have hprints := Json.prints_of_readable
      (started.run calls).1.options.indent.toList 0 hreadable
    rw [Document.toText, Json.print] at hprint
    revert hprint hprints
    generalize document.toValue.everywhere Value.isFinite = finite
    generalize Json.printValue _ 0 document.toValue = result
    intro hprint hprints
    cases hprints with
    | written cs =>
      have hwritten : Except.ok (String.ofList cs) = Except.error error := hprint
      contradiction
    | notFinite => exact .inr (Except.error.inj hprint).symm

theorem exists_half_of_encodable_eq_error {host : Host} {line : String} {error : Error}
    (h : encodable host line = .error error) :
    ∃ unit position, Text.isHalf unit = true ∧
      line.toList[position]? = some (host.halves.char unit) ∧
      error = .fileNotText (.unencodable position) := by
  unfold encodable at h
  split at h
  · exact nomatch h
  · rename_i position hposition
    obtain ⟨unit, hunit, hchar⟩ := Text.Halves.exists_half_of_position? hposition
    exact ⟨unit, position, hunit, hchar, (Except.error.inj h).symm⟩

/-! ## The output file -/

/-- The run reads everything, and opens this file for the document of the session. -/
structure OpensOutput (host : Host) (folder : Folder) (arguments : Arguments) (name : String)
    (session : Session) (notices : List Notice) : Prop where
  taken : takeAll host folder arguments [] = .ok (session, notices)
  named : nonEmpty? arguments.output = some name
  opened : folder.openOutput host name = .ok ()

section Output

variable {host : Host} {folder : Folder} {arguments : Arguments} {name : String}
  {session : Session} {notices : List Notice}

theorem runArguments_of_opensOutput (h : OpensOutput host folder arguments name session notices)
    {error : Error} (hline : documentLine session >>= encodable host = .error error) :
    runArguments folder arguments host =
      { notices, written := [(name, "")], ending := .failed error } := by
  simp only [runArguments, h.taken, h.named, writeOutcome, h.opened, hline]

theorem runArguments_of_opensOutput_of_line
    (h : OpensOutput host folder arguments name session notices) {line : String}
    (hline : documentLine session >>= encodable host = .ok line) :
    (runArguments folder arguments host).ending = .finished := by
  simp only [runArguments, h.taken, h.named, writeOutcome, h.opened, hline]

theorem written_printOutcome : (printOutcome host session notices).written = [] := by
  unfold printOutcome
  split
  · rfl
  · rfl

/-- A run that does not come to open a file writes none. -/
theorem written_of_not_opensOutput
    (h : ∀ name session notices, ¬ OpensOutput host folder arguments name session notices) :
    (runArguments folder arguments host).written = [] := by
  unfold runArguments
  split
  · rfl
  · rename_i session notices htaken
    split
    · rename_i name hnamed
      unfold writeOutcome
      split
      · rfl
      · rename_i hopened
        exact absurd ⟨htaken, hnamed, hopened⟩ (h name session notices)
    · exact written_printOutcome

end Output

/-! ## The folder -/

/-- The folder after a run: a file that was written takes the place of the one that was there. -/
def Folder.after (host : Host) (folder : Folder) (outcome : Outcome) : Folder :=
  { folder with
    files := outcome.written.foldl
      (fun files (name, text) => Table.put (host.place name) (Text.encodeUtf8 text) files)
      folder.files }

section After

variable {host : Host} {folder : Folder} {outcome : Outcome}

theorem after_of_written_eq_nil (h : outcome.written = []) :
    folder.after host outcome = folder := by
  rw [Folder.after, h]
  rfl

theorem after_of_emptied {name : String} (h : outcome.written = [(name, "")]) :
    folder.after host outcome =
      { folder with files := Table.put (host.place name) [] folder.files } := by
  have hempty : Text.encodeUtf8 "" = [] := by
    rw [Text.encodeUtf8_eq_flatMap]
    rfl
  rw [Folder.after, h]
  show { folder with
    files := Table.put (host.place name) (Text.encodeUtf8 "") folder.files } = _
  rw [hempty]

end After

/-- **What a failed run leaves behind.** It leaves the folder alone unless it had read everything
and opened its output file. That file is then empty, and the failure is that there was no sample,
that a number is not finite, or that the line to be written has half of a surrogate pair. -/
theorem after_run_of_failed {host : Host} (hhost : host.KeepsReadable) {folder : Folder}
    {words : List String} {error : Error} (h : (run folder words host).ending = .failed error) :
    ∃ arguments, Arguments.ofWords words = .ok arguments ∧
      ((∀ name session notices, ¬ OpensOutput host folder arguments name session notices) ∧
          folder.after host (run folder words host) = folder ∨
        ∃ name session notices, OpensOutput host folder arguments name session notices ∧
          folder.after host (run folder words host) =
            { folder with files := Table.put (host.place name) [] folder.files } ∧
          (error = .noSamples ∧ notices.getLast? = some (.generating 0) ∨
            error = .unprintable .notFinite ∨
            ∃ line unit position, documentLine session = .ok line ∧ Text.isHalf unit = true ∧
              line.toList[position]? = some (host.halves.char unit) ∧
              error = .fileNotText (.unencodable position))) := by
  cases hwords : Arguments.ofWords words with
  | error refusal =>
    rw [run, hwords] at h
    exact nomatch h
  | ok arguments =>
    have hrun : run folder words host = runArguments folder arguments host := by rw [run, hwords]
    rw [hrun] at h ⊢
    refine ⟨arguments, rfl, ?_⟩
    -- a failure before the file is opened writes nothing, and one after that leaves it empty
    by_cases hopens :
        ∃ name session notices, OpensOutput host folder arguments name session notices
    · obtain ⟨name, session, notices, hopens⟩ := hopens
      refine .inr ⟨name, session, notices, hopens, ?_⟩
      cases hencoded : documentLine session >>= encodable host with
      | ok line =>
        rw [runArguments_of_opensOutput_of_line hopens hencoded] at h
        exact nomatch h
      | error fault =>
        rw [runArguments_of_opensOutput hopens hencoded] at h ⊢
        obtain rfl := Ending.failed.inj h
        refine ⟨after_of_emptied rfl, ?_⟩
        obtain ⟨settings, started, url, hurl, hstart, hreads, hlast⟩ :=
          exists_start_of_takeAll hhost hopens.taken
        rcases except_bind_eq_error hencoded with hline | ⟨line, hline, hhalf⟩
        · rcases documentLine_eq_error hurl hstart hreads hline with ⟨hzero, hnone⟩ | hinfinite
          · rw [hzero] at hlast
            exact .inl ⟨hnone, hlast⟩
          · exact .inr (.inl hinfinite)
        · obtain ⟨unit, position, hunit, hchar, hfault⟩ := exists_half_of_encodable_eq_error hhalf
          exact .inr (.inr ⟨line, unit, position, hline, hunit, hchar, hfault⟩)
    · have hclosed : ∀ name session notices,
          ¬ OpensOutput host folder arguments name session notices :=
        fun name session notices hname => hopens ⟨name, session, notices, hname⟩
      exact .inl ⟨hclosed, after_of_written_eq_nil (written_of_not_opensOutput hclosed)⟩

-- The only sample is a string with one escape, of half a pair: it is the constant of the document,
-- and by the time it turns out not to have octets the output file is open.
example : (run ⟨[("half", [0x22, 0x5c, 0x75, 0x64, 0x38, 0x30, 0x30, 0x22])], ["."]⟩
    ["half", "-o", "schema"]).written = [("schema", "")] := by
  decide +kernel

-- A pattern that is refused here stops a run before that, and one that the host can read does not.
example :
    let folder : Folder :=
      ⟨[("lines", []), ("settings", Text.encodeUtf8
        "\x7b\"custom_formats\": \x7b\"word\": \"\\\\w+\"\x7d\x7d")], ["."]⟩
    let words := ["lines", "--lines", "--config", "settings", "-o", "schema"]
    (run folder words).written = [] ∧
      (run folder words { Host.plain with test? := fun _ => some fun _ => true }).written =
        [("schema", "")] := by
  decide +kernel

/-- A folder with a file that has no line, and with a document from an earlier run. -/
def emptyLinesFolder : Folder :=
  ⟨[("lines", []), ("schema", [0x7b, 0x7d])], ["."]⟩

/-- A run that reads the one and would write the other. -/
def emptyLinesWords : List String :=
  ["lines", "--lines", "-o", "schema"]

theorem ending_emptyLines : (run emptyLinesFolder emptyLinesWords).ending = .failed .noSamples := by
  rfl

theorem after_run_of_failed_emptyLines :
    Host.plain.KeepsReadable ∧
      (run emptyLinesFolder emptyLinesWords).ending = .failed .noSamples ∧
      ∃ name, emptyLinesFolder.after .plain (run emptyLinesFolder emptyLinesWords) =
        { emptyLinesFolder with files := Table.put name [] emptyLinesFolder.files } := by
  refine ⟨Host.keepsReadable_plain, ending_emptyLines, ?_⟩
  obtain ⟨arguments, hwords, hcases⟩ :=
    after_run_of_failed Host.keepsReadable_plain ending_emptyLines
  have harguments : Arguments.ofWords emptyLinesWords =
      .ok { samples := ["lines"], output := some "schema", byLine := true } := rfl
  rw [harguments] at hwords
  obtain rfl := Except.ok.inj hwords
  rcases hcases with ⟨hclosed, -⟩ | ⟨name, session, notices, -, hafter, -⟩
  · exact absurd ⟨rfl, rfl, rfl⟩ (hclosed "schema" _ _)
  · exact ⟨name, hafter⟩

/-- So not every failed run leaves the folder alone. -/
theorem not_after_run_emptyLines :
    ¬ ∀ folder words error, (run folder words).ending = .failed error →
      folder.after .plain (run folder words) = folder := by
  intro h
  have hkept := h emptyLinesFolder emptyLinesWords .noSamples ending_emptyLines
  have hwritten : (run emptyLinesFolder emptyLinesWords).written = [("schema", "")] := by rfl
  rw [after_of_emptied hwritten] at hkept
  have hfiles : [("lines", []), ("schema", [])] = emptyLinesFolder.files :=
    congrArg Folder.files hkept
  exact absurd hfiles (by decide)

end SampleSchema.CommandLine
