import SampleSchema.Proofs.History
import SampleSchema.Proofs.Holdings
/-!
# What the document of a history holds

The values in a document come from the samples and the loaded document that are left of a history.
If all that a session was given passes a test at every depth, then so does every document that it
shows.

* `Node.everywhere_ofOutline` and `Document.everywhere_ofValue`: a value that can be loaded leaves
  behind what it holds.
* `Session.everywhere_document_run`: so does a whole history, whatever calls it came from.
-/

namespace SampleSchema

variable {test : Value → Bool}

/-! ## From values to nodes and documents -/

theorem eq_map_of_allTexts? {items : List Value} {names : List String}
    (h : Node.allTexts? items = some names) : items = names.map .str := by
  unfold Node.allTexts? at h
  induction items generalizing names with
  | nil =>
    obtain rfl := Option.some.inj h
    rfl
  | cons item rest ih =>
    rw [List.mapM_cons] at h
    obtain ⟨name, hname, h⟩ := Option.bind_eq_some_iff.mp h
    obtain ⟨others, hothers, h⟩ := Option.bind_eq_some_iff.mp h
    obtain rfl := Option.some.inj h
    cases item with
    | str s =>
      obtain rfl := Option.some.inj hname
      rw [ih hothers]
      rfl
    | _ => exact nomatch hname

theorem isTypes_of_loadedTypes {v : Value} {types : List String}
    (h : Node.loadedTypes v = .ok types) (hne : v ≠ .null) : v.IsTypes := by
  unfold Node.loadedTypes at h
  split at h
  · exact absurd rfl hne
  · exact .inl ⟨_, rfl⟩
  · split at h
    · rename_i items _ names hnames
      exact .inr ⟨names, congrArg Value.list (eq_map_of_allTexts? hnames)⟩
    · exact nomatch h
  · exact nomatch h

namespace Value

theorem everywhere_member {members : List (String × Value)}
    (hmembers : (object members).everywhere test = true) {name : String} {v : Value}
    (hv : member name members = v) (hne : v ≠ .null) : v.everywhere test = true :=
  (everywhere_object_iff.mp hmembers).2 _ (mem_of_member_eq hv hne)

end Value

section Loads

variable (hregular : Value.Regular test) {members : List (String × Value)}
  (hmembers : (Value.object members).everywhere test = true)
include hmembers

theorem sound_ofKeywords (samples : Nat) (types : List String) (item : Option Node)
    {properties : List (String × Node)} (hnames : (Table.names properties).Nodup) :
    Node.Sound test { Node.ofKeywords samples types members with item, properties } where
  formats := by
    intro formats hformats format hformat
    obtain ⟨name, hname, rfl⟩ := Option.map_eq_some_iff.mp hformats
    obtain rfl := List.mem_singleton.mp hformat
    split at hname
    · obtain ⟨hmember, htruthy⟩ := Value.truthy?_eq_some_iff.mp hname
      exact Value.everywhere_member hmembers hmember (by rintro rfl; exact nomatch htruthy)
    · exact nomatch hname
  constant := by
    intro type v hv
    have hconstant : (if (Value.member "const" members).primitiveType.isScalar then
        Constant.candidate (Value.member "const" members).primitiveType
          (Value.member "const" members)
        else .unset) = .candidate type v := hv
    split at hconstant
    · rename_i hscalar
      obtain ⟨-, hmember⟩ := Constant.candidate.inj hconstant
      have hne : v ≠ .null := by
        rintro rfl
        rw [hmember] at hscalar
        exact nomatch hscalar
      exact ⟨hne, Value.everywhere_member hmembers hmember hne⟩
    · exact nomatch hconstant
  exemplar := by
    intro v hv
    obtain ⟨hmember, hne⟩ := Value.nonNull?_eq_some_iff.mp hv
    exact ⟨hne, Value.everywhere_member hmembers hmember hne⟩
  names := hnames

theorem sound_ofMembers {types : List String}
    (htypes : Node.loadedTypes (Value.member "type" members) = .ok types)
    (items : Option Document) {properties : List (String × Document)}
    (hnames : (Table.names properties).Nodup) :
    Document.Sound test {
      version := (Value.member "$schema" members).truthy?
      type := (Value.member "type" members).nonNull?
      properties
      items
      required := Document.listItems (Value.member "required" members)
      format := (Value.member "format" members).truthy?
      constant := (Value.member "const" members).nonNull?
      exemplar := (Value.member "example" members).nonNull?
      additionalProperties := (Value.member "additionalProperties" members).nonNull? } := by
  have htruthy : ∀ name, ∀ v ∈ (Value.member name members).truthy?,
      v.truthy = true ∧ v.everywhere test = true := by
    intro name v hv
    obtain ⟨hmember, htruthy⟩ := Value.truthy?_eq_some_iff.mp hv
    exact ⟨htruthy, Value.everywhere_member hmembers hmember (by rintro rfl; exact nomatch htruthy)⟩
  have hnonNull : ∀ name, ∀ v ∈ (Value.member name members).nonNull?,
      v ≠ .null ∧ v.everywhere test = true := by
    intro name v hv
    obtain ⟨hmember, hne⟩ := Value.nonNull?_eq_some_iff.mp hv
    exact ⟨hne, Value.everywhere_member hmembers hmember hne⟩
  refine ⟨htruthy _, ?_, hnames, ?_, htruthy _, hnonNull _, hnonNull _, hnonNull _⟩
  · intro v hv
    obtain ⟨rfl, hne⟩ := Value.nonNull?_eq_some_iff.mp hv
    exact isTypes_of_loadedTypes htypes hne
  · intro v hv
    cases hrequired : Value.member "required" members with
    | list items =>
      have hlist := Value.everywhere_member hmembers hrequired nofun
      rw [hrequired] at hv
      exact (Value.everywhere_list_iff.mp hlist).2 v hv
    | _ =>
      rw [hrequired] at hv
      exact absurd hv List.not_mem_nil

end Loads

section Loaded

variable (hregular : Value.Regular test)
include hregular

theorem nodup_names_of_partsOf {α : Type} {make : String → Value → Except Error α} {refused : Error}
    {members : List (String × Value)} (hmembers : (Value.object members).everywhere test = true)
    {parts : List (String × α)}
    (h : partsOf make refused (Value.member "properties" members) = .ok parts) :
    (Table.names parts).Nodup := by
  rcases names_of_partsOf h with rfl | ⟨fields, hfields, hnames⟩
  · exact .nil
  · have hproperties := Value.everywhere_member hmembers hfields nofun
    rw [hnames]
    exact (hregular.object fields).mp (Value.everywhere_object_iff.mp hproperties).1

/-- A node that was made from a value holds what the value holds. -/
theorem Node.everywhere_ofOutline {v : Value} (hv : v.everywhere test = true) {samples : Nat}
    {node : Node} (hnode : Node.ofOutline samples (.ofValue v) = .ok node) :
    node.Everywhere (Node.Sound test) := by
  induction v using Value.schemaInduction generalizing samples node with
  | stray v hstray =>
    cases v with
    | object members => exact nomatch hstray
    | _ => exact nomatch hnode
  | schema members ihItems ihProperties =>
    rw [Node.ofOutline_object] at hnode
    obtain ⟨types, -, hnode⟩ := except_bind_eq_ok hnode
    obtain ⟨item, hitem, hnode⟩ := except_bind_eq_ok hnode
    obtain ⟨children, hchildren, hnode⟩ := except_bind_eq_ok hnode
    obtain rfl := Except.ok.inj hnode
    have hnames := nodup_names_of_partsOf hregular hv hchildren
    refine .intro (sound_ofKeywords hv samples types item hnames) ?_ ?_
    · refine forall_mem_partOf hitem fun hne below hbelow => ?_
      exact ihItems _ (Value.mem_of_member_eq rfl hne) (Value.everywhere_member hv rfl hne) hbelow
    · refine forall_mem_partsOf hchildren fun fields hfields field hfield below hbelow => ?_
      have hmem := Value.mem_of_member_eq hfields nofun
      have hproperties := Value.everywhere_member hv hfields nofun
      exact ihProperties fields hmem field hfield
        ((Value.everywhere_object_iff.mp hproperties).2 field hfield) hbelow

/-- So does the document, and its types are well formed because a node could be made. -/
theorem Document.everywhere_ofValue {v : Value} (hv : v.everywhere test = true) {samples : Nat}
    {node : Node} (hnode : Node.ofOutline samples (.ofValue v) = .ok node) {document : Document}
    (hdocument : Document.ofValue v = .ok document) :
    document.Everywhere (Document.Sound test) := by
  induction v using Value.schemaInduction generalizing samples node document with
  | stray v hstray =>
    cases v with
    | object members => exact nomatch hstray
    | _ => exact nomatch hdocument
  | schema members ihItems ihProperties =>
    rw [Node.ofOutline_object] at hnode
    rw [Document.ofValue_object] at hdocument
    obtain ⟨types, htypes, hnode⟩ := except_bind_eq_ok hnode
    obtain ⟨item, hitem, hnode⟩ := except_bind_eq_ok hnode
    obtain ⟨children, hchildren, -⟩ := except_bind_eq_ok hnode
    obtain ⟨properties, hproperties, hdocument⟩ := except_bind_eq_ok hdocument
    obtain ⟨items, hitems, hdocument⟩ := except_bind_eq_ok hdocument
    obtain rfl := Except.ok.inj hdocument
    have hnames := nodup_names_of_partsOf hregular hv hproperties
    refine .intro (sound_ofMembers hv htypes items hnames) ?_ ?_
    · refine forall_mem_partOf hitems fun hne inside hinside => ?_
      -- the node was made from the same items
      obtain ⟨hnull, -⟩ | ⟨-, below, hbelow, -⟩ := partOf_eq_ok hitem
      · exact absurd hnull hne
      · exact ihItems _ (Value.mem_of_member_eq rfl hne) (Value.everywhere_member hv rfl hne) hbelow
          hinside
    · refine forall_mem_partsOf hproperties fun fields hfields field hfield inside hinside => ?_
      have hmem := Value.mem_of_member_eq hfields nofun
      have hholds := Value.everywhere_member hv hfields nofun
      rw [hfields] at hchildren
      obtain ⟨below, hbelow⟩ := exists_of_partsOf hchildren field hfield
      exact ihProperties fields hmem field hfield
        ((Value.everywhere_object_iff.mp hholds).2 field hfield) hbelow hinside

end Loaded

/-! ## From a history to its document -/

/-- What the options of a session hold: the version, and the names of the formats. -/
structure Options.Sound (test : Value → Bool) (options : Options) : Prop where
  version : ∀ v ∈ options.version, v.truthy = true ∧ v.everywhere test = true
  detectors : ∀ format ∈ options.observer.detectors, format.name.everywhere test = true

/-- The names of formats are texts, so that only the version is a value from outside. -/
theorem Options.sound_ofSettings (hregular : Value.Regular test) {settings : Settings}
    {options : Options} (h : Options.ofSettings settings = .ok options)
    (hversion : settings.version.everywhere test = true) : options.Sound test := by
  obtain ⟨predefined, -, h⟩ := except_bind_eq_ok h
  obtain ⟨cap, -, h⟩ := except_bind_eq_ok h
  obtain ⟨detectors, hdetectors, h⟩ := except_bind_eq_ok h
  obtain ⟨indent, -, h⟩ := except_bind_eq_ok h
  obtain rfl := Except.ok.inj h
  constructor
  · intro v hv
    obtain ⟨rfl, htruthy⟩ := Value.truthy?_eq_some_iff.mp hv
    exact ⟨htruthy, hversion⟩
  · obtain ⟨custom, hcustom, hdetectors⟩ := except_bind_eq_ok hdetectors
    obtain rfl := Except.ok.inj hdetectors
    refine List.forall_mem_append.mpr ⟨?_, fun format hformat => ?_⟩
    · have hknown : ∀ format ∈ Detector.known, ∃ name, format.name = .str name := by
        simp [Detector.known]
      intro format hformat
      split at hformat
      · obtain ⟨name, hname⟩ := hknown format hformat
        rw [hname]
        exact hregular.str name
      · exact absurd hformat List.not_mem_nil
    · obtain ⟨source, -, hsource⟩ := exists_of_mem_right (forall₂_of_mapM hcustom) hformat
      unfold Detector.ofCustom at hsource
      split at hsource
      · obtain rfl := Except.ok.inj hsource
        exact hregular.str _
      · exact nomatch hsource

namespace Session

/-- The value that a change takes in. -/
def Change.value : Change → Value
  | .sample v | .document v => v

theorem value_of_sampleChange? {session : Session} {v : Value} {change : Change}
    (h : session.sampleChange? v = some change) : change.value = v := by
  unfold sampleChange? at h
  split at h
  · exact nomatch h
  · obtain rfl := Option.some.inj h
    rfl

theorem value_of_documentChange? {v : Value} {change : Change}
    (h : documentChange? v = some change) : change.value = v := by
  unfold documentChange? at h
  split at h
  · obtain rfl := Option.some.inj h
    rfl
  · exact nomatch h

theorem toOption_eq_some {result : Except Error Value} {v : Value}
    (h : result.toOption = some v) : result = .ok v := by
  cases result with
  | error error => exact nomatch h
  | ok w => exact congrArg Except.ok (Option.some.inj h)

/-- A change that takes in a value which passes the test, and can be loaded if it is to be. -/
def Change.IsSound (test : Value → Bool) : Change → Prop
  | .sample v => v.everywhere test = true
  | .document v => v.everywhere test = true ∧ ∃ result, loadable v = .ok result

/-- What is left of a history of such changes. -/
structure Recent.Sound (test : Value → Bool) (recent : Recent) : Prop where
  loaded : ∀ v ∈ recent.loaded, v.everywhere test = true ∧ ∃ result, loadable v = .ok result
  samples : ∀ v ∈ recent.samples, v.everywhere test = true

theorem Recent.sound_after {recent : Recent} (hrecent : recent.Sound test) {change : Change}
    (hchange : change.IsSound test) : (recent.after change).Sound test := by
  cases change with
  | sample v =>
    refine ⟨hrecent.loaded, List.forall_mem_append.mpr ⟨hrecent.samples, ?_⟩⟩
    exact List.forall_mem_singleton.mpr hchange
  | document v =>
    refine ⟨?_, nofun⟩
    rintro _ ⟨⟩
    exact hchange

theorem Recent.sound_ofHistory {history : List Change}
    (hhistory : ∀ change ∈ history, change.IsSound test) : (ofHistory history).Sound test := by
  have hfold : ∀ (history : List Change) (recent : Recent),
      (∀ change ∈ history, change.IsSound test) → recent.Sound test →
        (history.foldl after recent).Sound test := by
    intro history
    induction history with
    | nil => exact fun recent _ hrecent => hrecent
    | cons change rest ih =>
      intro recent hall hrecent
      obtain ⟨hfirst, hrest⟩ := List.forall_mem_cons.mp hall
      exact ih _ hrest (sound_after hrecent hfirst)
  exact hfold history {} hhistory ⟨nofun, nofun⟩

/-- What every call makes of a session, whichever it is, a sequence of calls makes, too. -/
theorem forall_mem_changes {P : Change → Prop} {calls : List Call}
    (h : ∀ call ∈ calls, ∀ (session : Session), ∀ change ∈ session.change? call, P change)
    (session : Session) : ∀ change ∈ session.changes calls, P change := by
  induction calls generalizing session with
  | nil => exact nofun
  | cons call rest ih =>
    obtain ⟨hfirst, hrest⟩ := List.forall_mem_cons.mp h
    rw [changes, List.forall_mem_append]
    refine ⟨fun change hchange => ?_, ih hrest _⟩
    exact hfirst session change (Option.mem_toList.mp hchange)

/-- A document is taken in only if it can be loaded. -/
theorem exists_loadable_of_change? {session : Session} {call : Call} {v : Value}
    (h : session.change? call = some (.document v)) : ∃ result, loadable v = .ok result := by
  have heffect := effect_step session call
  rw [h] at heffect
  generalize session.step call = outcome at heffect
  cases heffect with
  | loaded v hadd hform hload => exact ⟨_, hload⟩

theorem Recent.document_mem_of_loaded {history : List Change} {v : Value}
    (h : (ofHistory history).loaded = some v) : .document v ∈ history := by
  have hfold : ∀ (history : List Change) (recent : Recent),
      (history.foldl after recent).loaded = some v →
        recent.loaded = some v ∨ .document v ∈ history := by
    intro history
    induction history with
    | nil => exact fun recent hloaded => .inl hloaded
    | cons change rest ih =>
      intro recent hloaded
      rcases ih _ hloaded with hafter | hmem
      · cases change with
        | sample w => exact .inl hafter
        | document w =>
          obtain rfl := Option.some.inj hafter
          exact .inr List.mem_cons_self
      · exact .inr (List.mem_cons_of_mem _ hmem)
  exact (hfold history {} h).resolve_left nofun

/-- The document that is left of a history was loaded. -/
theorem exists_loadable_of_recent {session : Session} {calls : List Call} {v : Value}
    (h : (Recent.ofHistory (session.changes calls)).loaded = some v) :
    ∃ result, loadable v = .ok result := by
  have hchanges : ∀ change ∈ session.changes calls, ∀ v, change = .document v →
      ∃ result, loadable v = .ok result := by
    refine forall_mem_changes (fun call _ session change hchange v hv => ?_) session
    rw [hv] at hchange
    exact exists_loadable_of_change? hchange
  exact hchanges _ (Recent.document_mem_of_loaded h) v rfl

section Document

variable (hregular : Value.Regular test) {options : Options} (hoptions : options.Sound test)
include hregular

theorem Recent.everywhere_start {recent : Recent} (hrecent : recent.Sound test) :
    recent.start.Everywhere (Node.Sound test) := by
  cases hloaded : recent.loaded with
  | none =>
    rw [start, hloaded]
    exact Node.everywhere_of_fresh Node.sound_fresh
  | some v =>
    obtain ⟨hv, ⟨root, document⟩, hload⟩ := hrecent.loaded v hloaded
    obtain ⟨-, hroot, hdocument⟩ := loadable_eq_ok_iff.mp hload
    rw [start, hloaded]
    dsimp only
    rw [hroot]
    exact Node.everywhere_ofOutline hregular hv hroot

include hoptions

theorem Recent.everywhere_document {recent : Recent} (hrecent : recent.Sound test)
    {document : Document} (h : recent.document options = .ok document) :
    document.Everywhere (Document.Sound test) := by
  have htree : (recent.tree options).Everywhere (Node.Sound test) := by
    unfold tree
    split
    · exact everywhere_start hregular hrecent
    · exact everywhere_prescribe _ (Node.everywhere_observeAll hoptions.detectors recent.samples
        hrecent.samples (everywhere_start hregular hrecent))
  unfold Recent.document at h
  split at h
  · exact nomatch h
  · rename_i v hsamples hloaded
    obtain ⟨hv, ⟨root, loaded⟩, hload⟩ := hrecent.loaded v hloaded
    obtain ⟨-, hroot, hdocument⟩ := loadable_eq_ok_iff.mp hload
    exact Document.everywhere_ofValue hregular hv hroot h
  · obtain rfl := Except.ok.inj h
    exact Document.everywhere_assemble hregular hoptions.version htree

omit hregular hoptions in
/-- If all changes that any calls make take in values which pass the test, so do those that are left
of the history. -/
theorem sound_recent_run {calls : List Call}
    (hcalls : ∀ call ∈ calls, ∀ (session : Session), ∀ change ∈ session.change? call,
      change.value.everywhere test = true) (session : Session) :
    (Recent.ofHistory (session.changes calls)).Sound test := by
  refine Recent.sound_ofHistory ?_
  refine forall_mem_changes (fun call hcall session change hchange => ?_) session
  have hvalue := hcalls call hcall session change hchange
  cases change with
  | sample v => exact hvalue
  | document v => exact ⟨hvalue, exists_loadable_of_change? hchange⟩

/-- **A document holds what its session was given.** If all changes that any calls make take in
values which pass the test, so does everything in the document that is read afterwards. -/
theorem everywhere_document_run {calls : List Call}
    (hcalls : ∀ call ∈ calls, ∀ (session : Session), ∀ change ∈ session.change? call,
      change.value.everywhere test = true)
    {document : Document} (h : (run { options } calls).1.document = .ok document) :
    document.Everywhere (Document.Sound test) := by
  rw [(follows_ofHistory options calls).document_eq] at h
  exact Recent.everywhere_document hregular hoptions (sound_recent_run hcalls _) h

end Document

/-- The same from the settings on, of which only the version ends up in a document. -/
theorem everywhere_document_of_start (hregular : Value.Regular test) {settings : Settings}
    {session : Session} (hstart : start settings = .ok session)
    (hversion : settings.version.everywhere test = true) {calls : List Call}
    (hcalls : ∀ call ∈ calls, ∀ (session : Session), ∀ change ∈ session.change? call,
      change.value.everywhere test = true)
    {document : Document} (h : (session.run calls).1.document = .ok document) :
    document.Everywhere (Document.Sound test) := by
  have hoptions := Options.sound_ofSettings hregular (ofSettings_of_start hstart) hversion
  rw [start_eq hstart] at h
  exact everywhere_document_run hregular hoptions hcalls h

end Session

end SampleSchema
