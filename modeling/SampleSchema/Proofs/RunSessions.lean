import SampleSchema.CommandLine.Run
import SampleSchema.Proofs.Writability
/-!
# The session of a run

A run of the command line goes through a session: it starts it with the settings, gives it the
document to continue from and then the samples of each file. So what is proved about sequences of
calls holds of runs, and `exists_start_of_takeAll` makes the step from the one to the other.

What a run gives to its session was read from files. The record paths of this library only pick
parts of what was read, so a test that was passed everywhere in a document is passed everywhere in
its records (`everywhere_follow`). Of the paths of another host no more is asked than that they make
nothing which no text could have held (`Host.KeepsReadable`).
-/

namespace SampleSchema

variable {test : Value → Bool}

/-! ## Records are parts of a document -/

namespace Selector

theorem everywhere_items {v w : Value} (hv : v.everywhere test = true) (hw : w ∈ items v) :
    w.everywhere test = true := by
  cases v with
  | list members => exact (Value.everywhere_list_iff.mp hv).2 w hw
  | tuple members => exact (Value.everywhere_tuple_iff.mp hv).2 w hw
  | _ => exact absurd hw List.not_mem_nil

theorem everywhere_members {v : Value} (hv : v.everywhere test = true)
    {members : Table Value} (hmembers : v.members? = some members) {member : String × Value}
    (hmember : member ∈ members) : member.2.everywhere test = true := by
  cases v with
  | object known =>
    obtain rfl := Option.some.inj hmembers
    exact (Value.everywhere_object_iff.mp hv).2 member hmember
  | _ => simp [Value.members?] at hmembers

theorem mem_of_item?_eq_some {items : List Value} {index : Int} {w : Value}
    (h : item? items index = some w) : w ∈ items := by
  simp only [item?, Option.ite_none_left_eq_some] at h
  exact List.mem_of_getElem? h.2

theorem everywhere_select (selector : Selector) {document v w : Value}
    (hdocument : document.everywhere test = true) (hv : v.everywhere test = true)
    (hw : w ∈ selector.select document v) : w.everywhere test = true := by
  cases selector with
  | root =>
    obtain rfl := List.mem_singleton.mp hw
    exact hdocument
  | names wanted =>
    rw [select] at hw
    split at hw
    · rename_i members hmembers
      obtain ⟨name, -, hname⟩ := List.mem_filterMap.mp hw
      exact everywhere_members hv hmembers (Table.mem_of_get?_eq_some hname)
    · exact absurd hw List.not_mem_nil
  | all =>
    rw [select] at hw
    split at hw
    · rename_i members hmembers
      obtain ⟨member, hmember, rfl⟩ := List.mem_map.mp hw
      exact everywhere_members hv hmembers hmember
    · exact everywhere_items hv hw
  | indices numbers =>
    obtain ⟨number, -, hnumber⟩ := List.mem_filterMap.mp hw
    exact everywhere_items hv (mem_of_item?_eq_some hnumber)
  | slice first last step =>
    obtain ⟨number, -, hnumber⟩ := List.mem_filterMap.mp hw
    exact everywhere_items hv (List.mem_of_getElem? hnumber)

end Selector

namespace PathStep

theorem descendItems_eq_flatMap (select : Value → List Value) (items : List Value) :
    descendItems select items = items.flatMap (descend select) := by
  induction items with
  | nil => rfl
  | cons item rest ih => rw [descendItems, ih, List.flatMap_cons]

theorem descendMembers_eq_flatMap (select : Value → List Value)
    (members : List (String × Value)) :
    descendMembers select members = members.flatMap fun member => descend select member.2 := by
  induction members with
  | nil => rfl
  | cons member rest ih => rw [descendMembers, ih, List.flatMap_cons]

theorem everywhere_descend {select : Value → List Value}
    (hselect : ∀ v w, v.everywhere test = true → w ∈ select v → w.everywhere test = true)
    {v w : Value} (hv : v.everywhere test = true) (hw : w ∈ descend select v) :
    w.everywhere test = true := by
  induction v using Value.partsInduction with
  | list items ih =>
    rw [descend, descendItems_eq_flatMap] at hw
    rcases List.mem_append.mp hw with hhere | hinside
    · exact hselect _ w hv hhere
    · obtain ⟨item, hitem, hwitem⟩ := List.mem_flatMap.mp hinside
      exact ih item hitem ((Value.everywhere_list_iff.mp hv).2 item hitem) hwitem
  | tuple items ih =>
    rw [descend, descendItems_eq_flatMap] at hw
    rcases List.mem_append.mp hw with hhere | hinside
    · exact hselect _ w hv hhere
    · obtain ⟨item, hitem, hwitem⟩ := List.mem_flatMap.mp hinside
      exact ih item hitem ((Value.everywhere_tuple_iff.mp hv).2 item hitem) hwitem
  | object members ih =>
    rw [descend, descendMembers_eq_flatMap] at hw
    rcases List.mem_append.mp hw with hhere | hinside
    · exact hselect _ w hv hhere
    · obtain ⟨member, hmember, hwmember⟩ := List.mem_flatMap.mp hinside
      exact ih member hmember ((Value.everywhere_object_iff.mp hv).2 member hmember) hwmember
  | _ => exact hselect _ w hv hw

theorem everywhere_select (step : PathStep) {document v w : Value}
    (hdocument : document.everywhere test = true) (hv : v.everywhere test = true)
    (hw : w ∈ step.select document v) : w.everywhere test = true := by
  have hselect : ∀ v w, v.everywhere test = true → w ∈ step.selector.select document v →
      w.everywhere test = true :=
    fun v w hv hw => step.selector.everywhere_select hdocument hv hw
  rw [select] at hw
  split at hw
  · exact everywhere_descend hselect hv hw
  · exact hselect v w hv hw

end PathStep

namespace RecordPath

/-- Every value that was reached passes the test, and so does what the next step selects of it. -/
theorem everywhere_reached (steps : List PathStep) {document : Value}
    (hdocument : document.everywhere test = true) {reached : List Value}
    (hreached : ∀ v ∈ reached, v.everywhere test = true) :
    ∀ w ∈ steps.foldl (fun values step => values.flatMap (step.select document)) reached,
      w.everywhere test = true := by
  induction steps generalizing reached with
  | nil => exact hreached
  | cons step steps ih =>
    refine ih fun w hw => ?_
    obtain ⟨v, hv, hwv⟩ := List.mem_flatMap.mp hw
    exact step.everywhere_select hdocument (hreached v hv) hwv

theorem everywhere_follow {path : String} {document : Value} {found : List Value}
    (h : follow path document = .ok found) (hdocument : document.everywhere test = true) :
    ∀ w ∈ found, w.everywhere test = true := by
  obtain ⟨steps, -, h⟩ := except_bind_eq_ok h
  obtain rfl := Except.ok.inj h
  exact everywhere_reached steps hdocument (List.forall_mem_singleton.mpr hdocument)

end RecordPath

/-! ## What files can hold -/

/-- The record paths of the host make nothing that no text could have held: a document that can be
read has records that can be. -/
def Host.KeepsReadable (host : Host) : Prop :=
  ∀ path document found, host.follow path document = .ok found →
    document.everywhere Value.isReadable = true →
      ∀ record ∈ found, record.everywhere Value.isReadable = true

/-- Parts of a document that can be read can be read. -/
theorem Host.keepsReadable_plain : Host.plain.KeepsReadable :=
  fun _ _ _ hfound hdocument => RecordPath.everywhere_follow hfound hdocument

theorem Host.KeepsReadable.everywhere_recordsAt {host : Host} (hhost : host.KeepsReadable)
    {path document : Value} {found : List Value}
    (h : RecordPath.recordsAt path document host.follow = .ok found)
    (hdocument : document.everywhere Value.isReadable = true) :
    ∀ record ∈ found, record.everywhere Value.isReadable = true := by
  unfold RecordPath.recordsAt at h
  split at h
  · obtain rfl := Except.ok.inj h
    exact List.forall_mem_singleton.mpr hdocument
  · split at h
    · exact hhost _ document found h hdocument
    · exact nomatch h
    · exact nomatch h

/-- Whatever is read from a text can be read, whichever characters stand for halves of pairs. -/
theorem Host.everywhere_isReadable_of_parseIn {host : Host} {text : String} {v : Value}
    (h : Session.parseIn host.sampleDialect text = .ok v) :
    v.everywhere Value.isReadable = true :=
  Json.everywhere_isReadable_of_read rfl (Session.read_of_parseIn h)

/-- So can every sample in a file. -/
theorem SampleFile.everywhere_samples {host : Host} (hhost : host.KeepsReadable)
    {octets : List UInt8} {byLine : Bool} {path : Value} {values : List Value}
    (h : samples octets byLine path host = .ok values) :
    ∀ v ∈ values, v.everywhere Value.isReadable = true := by
  obtain ⟨cs, -, h⟩ := except_bind_eq_ok h
  obtain ⟨documents, hdocuments, h⟩ := except_bind_eq_ok h
  obtain ⟨found, hfound, h⟩ := except_bind_eq_ok h
  obtain rfl := Except.ok.inj h
  intro v hv
  obtain ⟨records, hrecords, hvrecords⟩ := List.mem_flatten.mp hv
  obtain ⟨document, hdocument, hpath⟩ := exists_of_mem_right (forall₂_of_mapM hfound) hrecords
  obtain ⟨line, -, hparse⟩ := exists_of_mem_right (forall₂_of_mapM hdocuments) hdocument
  exact hhost.everywhere_recordsAt hpath (Host.everywhere_isReadable_of_parseIn hparse) v hvrecords

/-! ## What a session was given -/

namespace Session

/-- A call that gives a session something that was read from a text. -/
inductive Call.IsRead : Call → Prop
  | add {v : Value} (hv : v.everywhere Value.isReadable = true) : IsRead (.add v)
  | load {members : List (String × Value)}
      (hv : (Value.object members).everywhere Value.isReadable = true) :
      IsRead (.load (.object members))

theorem Call.IsRead.everywhere_value {call : Call} (hcall : call.IsRead) (session : Session)
    {change : Change} (hchange : change ∈ session.change? call) :
    change.value.everywhere Value.isReadable = true := by
  cases hcall with
  | add hv =>
    rw [value_of_sampleChange? hchange]
    exact hv
  | load hv =>
    rw [value_of_documentChange? hchange]
    exact hv

/-- One session becomes the other if it is given what was read. -/
def Reads (before after : Session) : Prop :=
  ∃ calls : List Call, (∀ call ∈ calls, call.IsRead) ∧ (before.run calls).1 = after

theorem Reads.refl (session : Session) : session.Reads session :=
  ⟨[], List.forall_mem_nil _, rfl⟩

theorem Reads.trans {before between after : Session} (h : before.Reads between)
    (h' : between.Reads after) : before.Reads after := by
  obtain ⟨calls, hcalls, rfl⟩ := h
  obtain ⟨more, hmore, rfl⟩ := h'
  refine ⟨calls ++ more, List.forall_mem_append.mpr ⟨hcalls, hmore⟩, ?_⟩
  rw [run_append]

theorem run_map_add (session : Session) (values : List Value) :
    (session.run (values.map .add)).1 = (session.addAll values).1 := by
  induction values generalizing session with
  | nil => rfl
  | cons v rest ih =>
    rw [List.map_cons, run_cons, addAll]
    exact ih _

theorem reads_addAll (session : Session) {values : List Value}
    (hvalues : ∀ v ∈ values, v.everywhere Value.isReadable = true) :
    session.Reads (session.addAll values).1 :=
  ⟨values.map .add, List.forall_mem_map.mpr fun v hv => .add (hvalues v hv),
    session.run_map_add values⟩

/-- Only an object can be loaded, so the value that was read is loaded as it is. -/
theorem reads_loadValue {session after : Session} {v : Value} {notices : List Notice}
    (hv : v.everywhere Value.isReadable = true)
    (h : session.loadValue v = .ok (after, notices)) : session.Reads after := by
  obtain ⟨⟨root, document⟩, hloadable, -⟩ := except_bind_eq_ok h
  obtain ⟨⟨members, rfl, -⟩, -⟩ := loadable_eq_ok_iff.mp hloadable
  refine ⟨[.load (.object members)], List.forall_mem_singleton.mpr (.load hv), ?_⟩
  show (session.change (session.loadValue (.object members))).1 = after
  rw [h]
  rfl

end Session

/-! ## The steps of a run -/

namespace CommandLine

section Telling

variable {α β : Type} {told told' : List Notice}

theorem telling_bind_eq_ok {first : Telling α} {next : α → Telling β} {b : β}
    (h : (first >>= next) told = .ok (b, told')) :
    ∃ a between, first told = .ok (a, between) ∧ next a between = .ok (b, told') := by
  obtain ⟨⟨a, between⟩, hfirst, hnext⟩ := except_bind_eq_ok h
  exact ⟨a, between, hfirst, hnext⟩

theorem require_eq_ok {result : Except Error α} {a : α}
    (h : require result told = .ok (a, told')) : result = .ok a ∧ told' = told := by
  cases result with
  | error error => exact nomatch h
  | ok value =>
    obtain ⟨rfl, rfl⟩ := Prod.mk.inj (Except.ok.inj h)
    exact ⟨rfl, rfl⟩

end Telling

section Steps

variable {host : Host} {folder : Folder} {session after : Session} {told told' : List Notice}

theorem reads_loadFile {name : String}
    (h : loadFile host folder session name told = .ok (after, told')) : session.Reads after := by
  obtain ⟨-, told, -, h⟩ := telling_bind_eq_ok h
  obtain ⟨text, told, -, h⟩ := telling_bind_eq_ok h
  obtain ⟨document, told, hdocument, h⟩ := telling_bind_eq_ok h
  obtain ⟨⟨loaded, notices⟩, told, hload, h⟩ := telling_bind_eq_ok h
  obtain ⟨-, told, -, h⟩ := telling_bind_eq_ok h
  obtain ⟨rfl, -⟩ := Prod.mk.inj (Except.ok.inj h)
  have hreadable := Host.everywhere_isReadable_of_parseIn (require_eq_ok hdocument).1
  exact Session.reads_loadValue hreadable (require_eq_ok hload).1

variable (hhost : host.KeepsReadable)
include hhost

theorem reads_takeFile {byLine : Bool} {path : Value} {name : String}
    (h : takeFile host folder byLine path session name told = .ok (after, told')) :
    session.Reads after := by
  obtain ⟨values, told, hvalues, h⟩ := telling_bind_eq_ok h
  obtain ⟨-, told, -, h⟩ := telling_bind_eq_ok h
  obtain ⟨-, told, -, h⟩ := telling_bind_eq_ok h
  obtain ⟨rfl, -⟩ := Prod.mk.inj (Except.ok.inj h)
  obtain ⟨octets, -, hsamples⟩ := except_bind_eq_ok (require_eq_ok hvalues).1
  exact session.reads_addAll (SampleFile.everywhere_samples hhost hsamples)

/-- The files are taken one after the other. -/
theorem reads_takeFiles {byLine : Bool} {path : Value} {names : List String}
    (h : names.foldlM (takeFile host folder byLine path) session told = .ok (after, told')) :
    session.Reads after := by
  induction names generalizing session told with
  | nil =>
    obtain ⟨rfl, -⟩ := Prod.mk.inj (Except.ok.inj h)
    exact .refl session
  | cons name names ih =>
    rw [List.foldlM_cons] at h
    obtain ⟨between, told, hfirst, h⟩ := telling_bind_eq_ok h
    exact (reads_takeFile hhost hfirst).trans (ih h)

end Steps

/-! ## Everything before the document -/

theorem exists_url_of_schemaVersion {setting v : Value} (h : schemaVersion setting = .ok v) :
    ∃ url, v = .str url := by
  unfold schemaVersion at h
  split at h
  · exact ⟨_, (Except.ok.inj h).symm⟩
  split at h
  · exact nomatch h
  split at h
  · exact ⟨_, (Except.ok.inj h).symm⟩
  · exact ⟨_, (Except.ok.inj h).symm⟩
  · split at h
    · exact ⟨_, (Except.ok.inj h).symm⟩
    · exact nomatch h
  · exact nomatch h

theorem exists_url_of_ofConfig {config : Value} {test? : String → Option (String → Bool)}
    {settings : Settings} (h : Settings.ofConfig config test? = .ok settings) : ∃ url, settings.version = .str url := by
  cases config with
  | object members =>
    obtain ⟨formats, -, h⟩ := except_bind_eq_ok h
    obtain ⟨predefined, -, h⟩ := except_bind_eq_ok h
    obtain ⟨version, hversion, h⟩ := except_bind_eq_ok h
    obtain ⟨indent, -, h⟩ := except_bind_eq_ok h
    obtain rfl := Except.ok.inj h
    exact exists_url_of_schemaVersion hversion
  | _ => exact nomatch h

/-- The last steps: the sample files, and the number of samples. -/
def takeSamples (host : Host) (folder : Folder) (arguments : Arguments) (path : Value)
    (session : Session) : Telling Session := do
  let session ← arguments.samples.foldlM (takeFile host folder arguments.byLine path) session
  tell [.generating session.count]
  return session

theorem reads_takeSamples {host : Host} (hhost : host.KeepsReadable) {folder : Folder}
    {arguments : Arguments} {path : Value} {session after : Session} {told notices : List Notice}
    (h : takeSamples host folder arguments path session told = .ok (after, notices)) :
    session.Reads after ∧ notices.getLast? = some (.generating after.count) := by
  obtain ⟨taken, between, htaken, hrest⟩ := telling_bind_eq_ok h
  obtain ⟨⟨⟩, last, htell, hreturn⟩ := telling_bind_eq_ok hrest
  obtain ⟨rfl, rfl⟩ := Prod.mk.inj (Except.ok.inj hreturn)
  obtain ⟨-, rfl⟩ := Prod.mk.inj (Except.ok.inj htell)
  exact ⟨reads_takeFiles hhost htaken, List.getLast?_concat⟩

/-- A run that has read everything has a session that was started with an address for its version
and was given what was read. The number of samples is told last. -/
theorem exists_start_of_takeAll {host : Host} (hhost : host.KeepsReadable) {folder : Folder}
    {arguments : Arguments} {session : Session} {notices : List Notice}
    (h : takeAll host folder arguments [] = .ok (session, notices)) :
    ∃ settings started url, settings.version = .str url ∧ Session.start settings = .ok started ∧
      started.Reads session ∧ notices.getLast? = some (.generating session.count) := by
  obtain ⟨config, told₁, -, h⟩ := telling_bind_eq_ok h
  obtain ⟨settings, told₂, hsettings, h⟩ := telling_bind_eq_ok h
  obtain ⟨started, told₃, hstarted, h⟩ := telling_bind_eq_ok h
  obtain ⟨url, hurl⟩ := exists_url_of_ofConfig (require_eq_ok hsettings).1
  refine ⟨settings, started, url, hurl, (require_eq_ok hstarted).1, ?_⟩
  -- the document to continue from is loaded, if there is one
  obtain ⟨resumed, told₄, hresumed, h⟩ : ∃ resumed told₄, started.Reads resumed ∧
      takeSamples host folder arguments (Value.member "record_list_level" config) resumed told₄ =
        .ok (session, notices) := by
    cases hname : nonEmpty? arguments.load with
    | none =>
      simp only [hname] at h
      exact ⟨started, told₃, .refl started, h⟩
    | some name =>
      simp only [hname] at h
      obtain ⟨resumed, told₄, hload, hrest⟩ := telling_bind_eq_ok h
      exact ⟨resumed, told₄, reads_loadFile hload, hrest⟩
  obtain ⟨hsamples, hlast⟩ := reads_takeSamples hhost h
  exact ⟨hresumed.trans hsamples, hlast⟩

end CommandLine

end SampleSchema
