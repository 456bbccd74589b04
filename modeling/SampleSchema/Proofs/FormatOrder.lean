import SampleSchema.Proofs.Descent
import SampleSchema.Proofs.FormatOverlap
import SampleSchema.Proofs.History
/-!
# The order of the known formats

Of the formats that all texts of a position have, the earliest is shown. So the order of the known
formats can be of consequence only where two of them have all the texts, and two known formats share
no texts but mapped addresses. This module follows that argument from the formats up to the documents
of two sessions that differ in the order alone.

* `Node.eq_of_sub?_observeAll`: the node at a position, whether it was there before or not, has
  observed the values that reached the position.
* `Document.format_assemble_congr`: all that decides the format of a document.
* `Node.formats_observeAll_of_perm`: the step from an order to another one, at one node.
* `Session.changes_congr`: unless a document is read back, the changes that calls make do not depend
  on the formats that are looked for.
* `Session.known_overlap` puts the parts together.
-/

namespace SampleSchema

open Detector Format

/-- The options with other formats to look for. -/
def Options.withDetectors (options : Options) (detectors : List Detector) : Options :=
  { options with observer := { options.observer with detectors } }

/-! ## Reordered formats -/

/-- A test that at most one member of a list passes selects the same from every order of the list. -/
theorem filter_eq_of_perm {α : Type} {test : α → Bool} {order xs : List α} (hperm : order.Perm xs)
    (hxs : xs.Nodup) (hone : ∀ x ∈ xs, ∀ y ∈ xs, test x = true → test y = true → x = y) :
    order.filter test = xs.filter test := by
  have hfilter := hperm.filter test
  cases hselected : xs.filter test with
  | nil =>
    rw [hselected] at hfilter
    exact List.perm_nil.mp hfilter
  | cons x rest =>
    cases rest with
    | nil =>
      rw [hselected] at hfilter
      exact List.perm_singleton.mp hfilter
    | cons y rest =>
      -- two selected members would be one, but the list repeats none
      have hdistinct := hxs.filter test
      rw [hselected] at hdistinct
      have hx : x ∈ xs.filter test := by simp [hselected]
      have hy : y ∈ xs.filter test := by simp [hselected]
      obtain ⟨hx, htest⟩ := List.mem_filter.mp hx
      obtain ⟨hy, htest'⟩ := List.mem_filter.mp hy
      have hne : x ≠ y := List.ne_of_not_mem_cons (List.nodup_cons.mp hdistinct).1
      exact absurd (hone x hx y hy htest htest') hne

namespace Detector

theorem nodup_names_known : (known.map (·.name)).Nodup := by
  simp [known]

theorem name_ne_of_ne {d e : Detector} (hd : d ∈ known) (he : e ∈ known) (hne : d ≠ e) :
    d.name ≠ e.name :=
  fun hname => hne (List.inj_on_of_nodup_map nodup_names_known hd he hname)

end Detector

/-! ## Nodes at a position -/

namespace Node

variable {observer : Observer} {node : Node} (vs : Batch)

theorem getD_sub?_fresh (position : Position) : (sub? position {}).getD {} = {} := by
  cases position with
  | nil => rfl
  | cons step rest => cases step <;> rfl

/-- A node that was not there before is a fresh one. -/
theorem eq_of_sub?_observeAll {position : Position} {below : Node}
    (h : (node.observeAll observer vs).sub? position = some below) :
    below = ((node.sub? position).getD {}).observeAll observer (vs.reached position) := by
  induction position generalizing node vs with
  | nil => exact (Option.some.inj h).symm
  | cons step rest ih =>
    cases step with
    | none =>
      obtain ⟨item, hitem, hrest⟩ := Option.bind_eq_some_iff.mp h
      show below = ((node.item.bind (sub? rest)).getD {}).observeAll observer _
      cases hbefore : node.item with
      | some before =>
        rw [item_observeAll_of_eq_some vs hbefore] at hitem
        obtain rfl := Option.some.inj hitem
        exact ih vs.elements hrest
      | none =>
        -- no node was there, so a fresh one has observed the elements
        rw [item_observeAll, hbefore] at hitem
        split at hitem
        · obtain rfl := Option.some.inj hitem
          rw [ih vs.elements hrest, Option.getD_none, getD_sub?_fresh]
          rfl
        · exact nomatch hitem
    | some name =>
      obtain ⟨child, hchild, hrest⟩ := Option.bind_eq_some_iff.mp h
      show below = (((Table.get? name node.properties).bind (sub? rest)).getD {}).observeAll
        observer _
      cases hbefore : Table.get? name node.properties with
      | some before =>
        rw [get?_properties_observeAll_of_eq_some vs hbefore] at hchild
        obtain rfl := Option.some.inj hchild
        exact ih (vs.named name) hrest
      | none =>
        rw [get?_properties_observeAll, hbefore] at hchild
        split at hchild
        · exact nomatch hchild
        · obtain rfl := Option.some.inj hchild
          rw [ih (vs.named name) hrest, Option.getD_none, getD_sub?_fresh]
          rfl

/-- Unless all texts are mapped addresses, and there are any, a node is left with the same formats by
every order of the known ones. -/
theorem formats_observeAll_of_perm {order custom : List Detector} (hperm : order.Perm known)
    (keepsExamples : Bool)
    (hmapped : ¬ (vs.texts ≠ [] ∧ ∀ text ∈ vs.texts, IsMappedText text.toList)) :
    (node.observeAll ⟨keepsExamples, order ++ custom⟩ vs).formats =
      (node.observeAll ⟨keepsExamples, known ++ custom⟩ vs).formats := by
  rw [formats_observeAll, formats_observeAll]
  by_cases htexts : vs.texts = []
  · rw [if_pos htexts, if_pos htexts]
  · rw [if_neg htexts, if_neg htexts]
    cases node.formats with
    | some formats => rfl
    | none =>
      -- two formats that are left would have all the texts in common
      have hone : ∀ d ∈ known, ∀ e ∈ known, vs.texts.all d.accepts = true →
          vs.texts.all e.accepts = true → d = e := by
        intro d hd e he hall hall'
        by_contra hne
        refine hmapped ⟨htexts, fun text htext => ?_⟩
        exact (isMappedText_of_accepts hd he (name_ne_of_ne hd he hne)
          (List.all_eq_true.mp hall text htext) (List.all_eq_true.mp hall' text htext)).2
      have hknown := filter_eq_of_perm hperm (List.Nodup.of_map _ nodup_names_known) hone
      rw [Option.getD_none, Option.getD_none, List.filter_append, List.filter_append, hknown]

end Node

/-! ## The format of a document -/

/-- The format goes by the types, the formats that are left, and a prescribed type. -/
theorem Document.format_assemble_congr {node other : Node} (version version' : Option Value)
    (htypes : node.types = other.types) (hformats : node.formats = other.formats)
    (hoverride : node.override = other.override) :
    (assemble version node).format = (assemble version' other).format := by
  rw [assemble_eq, assemble_eq, hoverride]
  split
  · rename_i type _
    obtain ⟨-, -, hformat⟩ := tells_ofOverride version type (node.item.map (assemble none))
      (node.properties.map fun child => (child.1, assemble none child.2))
    obtain ⟨-, -, hformat'⟩ := tells_ofOverride version' type (other.item.map (assemble none))
      (other.properties.map fun child => (child.1, assemble none child.2))
    rw [hformat, hformat']
  · show (if node.primaryType? = _ then node.format?.bind _ else none) =
      if other.primaryType? = _ then other.format?.bind _ else none
    rw [Node.primaryType?, Node.primaryType?, Node.format?, Node.format?, htypes, hformats]

namespace Session

theorem format_assemble_prescribedAt_congr {node other : Node}
    (predefined : List (String × String)) (position : Position) (version version' : Option Value)
    (htypes : node.types = other.types) (hformats : node.formats = other.formats)
    (hoverride : node.override = other.override) :
    (Document.assemble version (prescribedAt predefined position node)).format =
      (Document.assemble version' (prescribedAt predefined position other)).format := by
  match position with
  | [] => exact Document.format_assemble_congr version version' htypes hformats hoverride
  | [some name] =>
    refine Document.format_assemble_congr version version' htypes hformats ?_
    show (Table.get? name predefined).or node.override = (Table.get? name predefined).or other.override
    rw [hoverride]
  | none :: rest => exact Document.format_assemble_congr version version' htypes hformats hoverride
  | some name :: step :: rest =>
    exact Document.format_assemble_congr version version' htypes hformats hoverride

/-! ## The document of a history -/

/-- What the document of a history shows at a position, once samples came. -/
theorem Recent.exists_of_sub? {options : Options} {recent : Recent} (hsamples : recent.samples ≠ [])
    {document here : Document} {position : Position}
    (hdocument : recent.document options = .ok document)
    (hhere : document.sub? position = some here) :
    ∃ version, here = Document.assemble version (prescribedAt options.predefined position
      (((recent.start.sub? position).getD {}).observeAll options.observer
        (recent.samples.reached position))) := by
  obtain ⟨loaded, vs⟩ := recent
  rw [document_of_ne_nil options loaded hsamples, tree_of_ne_nil options loaded hsamples]
    at hdocument
  rw [← Except.ok.inj hdocument] at hhere
  obtain ⟨version, under, hunder, hshown⟩ := Document.exists_of_sub?_assemble hhere
  rw [sub?_prescribe] at hunder
  obtain ⟨below, hbelow, rfl⟩ := Option.map_eq_some_iff.mp hunder
  rw [Node.eq_of_sub?_observeAll vs hbelow] at hshown
  exact ⟨version, hshown⟩

theorem Recent.mapped_of_format_ne {options : Options} {order custom : List Detector}
    (hperm : order.Perm known) {recent : Recent} {position : Position}
    {document other here there : Document}
    (hdocument : recent.document (options.withDetectors (known ++ custom)) = .ok document)
    (hother : recent.document (options.withDetectors (order ++ custom)) = .ok other)
    (hhere : document.sub? position = some here) (hthere : other.sub? position = some there)
    (hne : there.format ≠ here.format) :
    (recent.samples.reached position).texts ≠ [] ∧
      ∀ text ∈ (recent.samples.reached position).texts, IsMappedText text.toList := by
  by_contra hmapped
  by_cases hsamples : recent.samples = []
  · -- without a sample the document is the loaded one, in which nothing is looked for
    obtain ⟨loaded, vs⟩ := recent
    obtain rfl : vs = [] := hsamples
    have hsame : document = other := Except.ok.inj (hdocument.symm.trans hother)
    rw [hsame, hthere] at hhere
    exact hne (congrArg Document.format (Option.some.inj hhere))
  · obtain ⟨version, rfl⟩ := recent.exists_of_sub? hsamples hdocument hhere
    obtain ⟨version', rfl⟩ := recent.exists_of_sub? hsamples hother hthere
    refine hne (format_assemble_prescribedAt_congr _ position version' version ?_ ?_ ?_)
    · rw [Node.types_observeAll, Node.types_observeAll]
    · exact Node.formats_observeAll_of_perm _ hperm options.observer.keepsExamples hmapped
    · rw [Node.override_observeAll, Node.override_observeAll]

/-! ## Two sessions -/

/-- Unless a document is read back, the changes that a sequence of calls makes depend on the options
by the cap alone. -/
theorem changes_congr {options options' : Options} (hcap : options.cap = options'.cap)
    {recent : Recent} {session other : Session} (h : Follows options recent session)
    (h' : Follows options' recent other) {calls : List Call}
    (hcalls : ∀ call ∈ calls, call ≠ .reload) : session.changes calls = other.changes calls := by
  induction calls generalizing recent session other with
  | nil => rfl
  | cons call rest ih =>
    obtain ⟨hcall, hrest⟩ := List.forall_mem_cons.mp hcalls
    have hsample : session.sampleChange? = other.sampleChange? := by
      funext v
      rw [sampleChange?, sampleChange?, h.options_eq, h'.options_eq, h.count_eq, h'.count_eq, hcap]
    have hchange : session.change? call = other.change? call := by
      cases call with
      | add v => exact congrFun hsample v
      | addText text => exact congrArg (parse text).toOption.bind hsample
      | addOctets octets => exact congrArg (parseOctets octets).toOption.bind hsample
      | reload => exact absurd rfl hcall
      | _ => rfl
    have hafter := follows_step h' call
    rw [← hchange] at hafter
    rw [changes, changes, hchange, ih (follows_step h call) hafter hrest]

/-- **The known formats overlap on mapped addresses.** Two known formats that have a text in common are
the two kinds of internet addresses, and the text is an address in `::ffff:0:0/96` whose last two
groups are written as octets. Every such text has these two formats and no other. And where two
sessions with one history, that look for the known formats in different orders, show different
formats, there were texts, and all of them were such addresses. -/
theorem known_overlap :
    (∀ (s : String) (d e : Detector), d ∈ known → e ∈ known → d ≠ e →
      d.accepts s = true → e.accepts s = true →
      (d.name = .str "ipv6" ∧ e.name = .str "ipv4" ∨ d.name = .str "ipv4" ∧ e.name = .str "ipv6") ∧
        IsMappedText s.toList) ∧
    (∀ s : String, IsMappedText s.toList → ∀ d ∈ known,
      (d.accepts s = true ↔ d.name = .str "ipv6" ∨ d.name = .str "ipv4")) ∧
    (∀ (options : Options) (order custom : List Detector) (calls others : List Call),
      let usual : Session := { options := options.withDetectors (known ++ custom) }
      let reordered : Session := { options := options.withDetectors (order ++ custom) }
      order.Perm known → changes reordered others = changes usual calls →
      ∀ (document other : Document) (position : Position) (here there : Document),
        (run usual calls).1.document = .ok document →
        (run reordered others).1.document = .ok other →
        document.sub? position = some here → other.sub? position = some there →
        there.format ≠ here.format →
        let reached := (Recent.ofHistory (changes usual calls)).samples.reached position
        reached.texts ≠ [] ∧ ∀ text ∈ reached.texts, IsMappedText text.toList) := by
  refine ⟨?_, ?_, ?_⟩
  · intro s d e hd he hne
    exact isMappedText_of_accepts hd he (name_ne_of_ne hd he hne)
  · intro s hs d hd
    exact accepts_iff_of_isMappedText hs hd
  · intro options order custom calls others usual reordered hperm hhistory document other position
      here there hdocument hother hhere hthere hne
    rw [(follows_ofHistory _ calls).document_eq] at hdocument
    rw [(follows_ofHistory _ others).document_eq, hhistory] at hother
    exact Recent.mapped_of_format_ne hperm hdocument hother hhere hthere hne

/-- Options under which nothing but the known formats is of interest. -/
def hostOptions : Options :=
  ⟨[], .unlimited, ⟨false, []⟩, none, ""⟩

/-- A sample with a mapped address in a field. -/
def hostCalls : List Call :=
  [.add (.object [("host", .str "::ffff:192.168.1.1")])]

/-- The order decides about a mapped address. -/
theorem known_overlap_hostCalls :
    let usual : Session := { options := hostOptions.withDetectors (known ++ []) }
    let reordered : Session := { options := hostOptions.withDetectors (known.reverse ++ []) }
    ∃ document other here there,
      (run usual hostCalls).1.document = .ok document ∧
      (run reordered hostCalls).1.document = .ok other ∧
      document.sub? [some "host"] = some here ∧ other.sub? [some "host"] = some there ∧
      here.format = some (.str "ipv6") ∧ there.format = some (.str "ipv4") ∧
      IsMappedText "::ffff:192.168.1.1".toList := by
  intro usual reordered
  have hcalls : ∀ call ∈ hostCalls, call ≠ .reload := List.forall_mem_singleton.mpr nofun
  have hhistory : changes reordered hostCalls = changes usual hostCalls :=
    changes_congr rfl (follows_fresh _) (follows_fresh _) hcalls
  refine ⟨_, _, _, _, rfl, rfl, rfl, rfl, rfl, rfl, ?_⟩
  obtain ⟨-, -, horder⟩ := known_overlap
  have hdiffer : some (Value.str "ipv4") ≠ some (.str "ipv6") := by simp
  have hmapped := horder hostOptions known.reverse [] hostCalls hostCalls
    (List.reverse_perm known) hhistory _ _ [some "host"] _ _ rfl rfl rfl rfl hdiffer
  exact hmapped.2 _ List.mem_cons_self

end Session

end SampleSchema
