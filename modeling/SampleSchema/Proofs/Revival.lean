import SampleSchema.Proofs.Constancy
import SampleSchema.Proofs.LoadedNode
/-!
# Constants and formats after a load

In one run a constant is lost for good once two scalars differ, and so are all formats once a text
has none of them. A document does not say that something was lost: the keyword is just not there, as
it is before anything was seen. So a load starts to look for constants and formats anew, and finds
what the values behind it have in common.

* `Node.constant?_observeAll_of_loadsAs`: a loaded constant counts like one value in front of the
  others, and without it there are only the others.
* `Node.format?_observeAll_of_formats_eq_none`: without a loaded format, the detectors decide.
* `Document.LoadsAs.primaryType?_eq_string_iff`: behind a document of strings, they lead as long as
  no other type has more values.
* `Session.detection_after_load`: what follows for the document that is read, at every position.
* `Session.revived_plainText`: so a constant and a format that were lost come back.
-/

namespace SampleSchema

namespace Node

/-! ## Constants -/

theorem constant_eq_foldl_track {document : Document} {node : Node} (h : document.LoadsAs node) :
    node.constant = document.loadedConstant?.toList.foldl Constant.track .unset := by
  rw [h.constant_eq]
  cases hconstant : document.loadedConstant? with
  | none => rfl
  | some v =>
    have hscalar : v.primitiveType.isScalar = true :=
      Document.isScalar_of_mem_loadedConstant? hconstant
    show _ = Constant.track .unset v
    rw [Constant.track, if_pos hscalar]

/-- The constant of a loaded document goes in front of the values, if it is a scalar. -/
theorem constant?_observeAll_of_loadsAs {document : Document} {node : Node}
    (h : document.LoadsAs node) (observer : Observer) (vs : Batch) :
    (node.observeAll observer vs).constant? =
      if (document.loadedConstant?.toList ++ vs.scalars).Pairwise Value.Agrees then
        (document.loadedConstant?.toList ++ vs.scalars).head?
      else none := by
  have hscalars : Batch.scalars (document.loadedConstant?.toList ++ vs) =
      document.loadedConstant?.toList ++ vs.scalars := by
    have hfront : Batch.scalars document.loadedConstant?.toList = document.loadedConstant?.toList :=
      List.filter_eq_self.mpr fun v hv =>
        Document.isScalar_of_mem_loadedConstant? (Option.mem_toList.mp hv)
    rw [Batch.scalars_append, hfront]
  -- tracking goes on as if the constant had been observed
  have hconstant : (node.observeAll observer vs).constant =
      (observeAll observer (document.loadedConstant?.toList ++ vs) {}).constant := by
    rw [constant_observeAll, constant_observeAll, List.foldl_append, ← constant_eq_foldl_track h]
  rw [constant?, hconstant, ← constant?, constant?_observeAll_fresh, hscalars]

/-! ## Formats -/

/-- Where no format was looked for, the first detector that accepts all texts names the format. -/
theorem format?_observeAll_of_formats_eq_none {node : Node} (h : node.formats = none)
    (observer : Observer) (vs : Batch) :
    (node.observeAll observer vs).format? =
      if vs.texts = [] then none
      else (observer.detectors.find? fun detector => vs.texts.all detector.accepts).map (·.name) := by
  rw [format?, formats_observeAll, h]
  split
  · rfl
  · rw [Option.bind_some, Option.getD_none, List.head?_filter]

/-! ## Strings that lead -/

theorem getD_get?_types_observeAll (node : Node) (observer : Observer) (vs : Batch) (tag : String) :
    (Table.get? tag (node.observeAll observer vs).types).getD 0 =
      (Table.get? tag node.types).getD 0 + vs.tags.count tag := by
  induction vs generalizing node with
  | nil => rfl
  | cons v rest ih =>
    have htags : Batch.tags (v :: rest) = v.primitiveType.name :: Batch.tags rest := rfl
    rw [observeAll_cons, ih, types_observe, htags, List.count_cons]
    by_cases htag : v.primitiveType.name = tag
    · subst htag
      rw [Table.get?_alter_self, Option.getD_some]
      simp
      omega
    · rw [Table.get?_alter_of_ne (Ne.symm htag)]
      simp [htag]

/-- A type whose name comes last leads if it is strictly the most frequent one. -/
theorem primaryType?_eq_some_iff_of_last {node : Node} (hnames : (Table.names node.types).Nodup)
    {type : String} {count : Nat} (htype : Table.get? type node.types = some count)
    (hpos : 0 < count) (hlast : ∀ other ∈ Table.names node.types, other ≤ type) :
    node.primaryType? = some type ↔
      ∀ other, other ≠ type → (Table.get? other node.types).getD 0 < count := by
  constructor
  · intro hprimary other hne
    obtain ⟨best, hbest, rfl⟩ := Option.map_eq_some_iff.mp hprimary
    have hmem := mem_of_dominant?_eq_some hbest
    rw [Table.get?_eq_some_of_mem hnames hmem] at htype
    obtain rfl := Option.some.inj htype
    cases hother : Table.get? other node.types with
    | none => exact hpos
    | some less =>
      have hless : (other, less) ∈ node.types := Table.mem_of_get?_eq_some hother
      have hdiffer : (other, less) ≠ best := fun h => hne (congrArg Prod.fst h)
      rcases outranks_iff.mp (outranks_of_dominant?_eq_some hnames hbest hless hdiffer) with
        hlt | ⟨-, hlt⟩
      · exact hlt
      · exact absurd hlt (String.not_lt.mpr (hlast other (List.mem_map.mpr ⟨_, hless, rfl⟩)))
  · intro hmost
    have hmem : (type, count) ∈ node.types := Table.mem_of_get?_eq_some htype
    cases hbest : dominant? node.types with
    | none =>
      rw [dominant?_eq_none_iff.mp hbest] at hmem
      exact absurd hmem List.not_mem_nil
    | some best =>
      by_cases heq : best.1 = type
      · rw [primaryType?, hbest, Option.map_some, heq]
      · -- the best of all would be less frequent
        have hless := hmost best.1 heq
        rw [Table.get?_eq_some_of_mem hnames (mem_of_dominant?_eq_some hbest),
          Option.getD_some] at hless
        have hdiffer : (type, count) ≠ best := fun h => heq (congrArg Prod.fst h).symm
        rcases outranks_iff.mp (outranks_of_dominant?_eq_some hnames hbest hmem hdiffer) with
          hlt | ⟨hsame, -⟩
        · omega
        · omega

theorem mem_names_types_observeAll {node : Node} {observer : Observer} {vs : Batch} {tag : String} :
    tag ∈ Table.names (node.observeAll observer vs).types ↔
      tag ∈ Table.names node.types ∨ tag ∈ vs.tags := by
  have htags : Table.names (vs.map fun v => (v.primitiveType.name, v)) = vs.tags := by
    rw [Table.names, List.map_map]
    rfl
  rw [types_observeAll, Table.mem_names_gather, htags]

end Node

theorem PrimitiveType.name_le_string (type : PrimitiveType) : type.name ≤ "string" := by
  cases type <;> decide

namespace Document.LoadsAs

variable {document : Document} {node : Node} (h : document.LoadsAs node) {observer : Observer}
  {vs : Batch}
include h

/-- Strings lead behind a document of strings as long as no other type has more values than they
have: the document counts as one string, and of equally frequent types it is the last by name. -/
theorem primaryType?_eq_string_iff (htype : document.type = some (.str "string")) :
    (node.observeAll observer vs).primaryType? = some "string" ↔
      ∀ tag, tag ≠ "string" → vs.tags.count tag ≤ vs.tags.count "string" := by
  have htypes : node.types = [("string", 1)] := h.types_of_str htype
  have hcount : ∀ tag, (Table.get? tag (node.observeAll observer vs).types).getD 0 =
      (if tag = "string" then 1 else 0) + vs.tags.count tag := by
    intro tag
    rw [Node.getD_get?_types_observeAll, htypes, Table.get?]
    by_cases htag : tag = "string"
    · simp [htag]
    · simp [htag, Ne.symm htag, Table.get?]
  have hnames : (Table.names (node.observeAll observer vs).types).Nodup := by
    rw [Node.types_observeAll, htypes]
    exact Table.nodup_names_gather _ _ _ (List.nodup_singleton _)
  have hlast : ∀ tag ∈ Table.names (node.observeAll observer vs).types, tag ≤ "string" := by
    intro tag htag
    rw [Node.mem_names_types_observeAll, htypes] at htag
    rcases htag with hloaded | hseen
    · obtain rfl := List.mem_singleton.mp hloaded
      exact String.le_refl _
    · obtain ⟨v, -, rfl⟩ := List.mem_map.mp hseen
      exact v.primitiveType.name_le_string
  have hmem : "string" ∈ Table.names (node.observeAll observer vs).types := by
    rw [Node.mem_names_types_observeAll, htypes]
    exact .inl List.mem_cons_self
  obtain ⟨count, hget⟩ := Option.isSome_iff_exists.mp (Table.isSome_get?_iff.mpr hmem)
  have hstrings : count = 1 + vs.tags.count "string" := by
    have hthis := hcount "string"
    rwa [hget, Option.getD_some, if_pos rfl] at hthis
  rw [Node.primaryType?_eq_some_iff_of_last hnames hget (by omega) hlast]
  refine forall₂_congr fun tag hne => ?_
  rw [hcount tag, if_neg hne, hstrings]
  omega

variable {after : Document} (hshows : after.Shows (node.observeAll observer vs))
include hshows

theorem constant_eq_some_iff {c : Value} :
    after.constant = some c ↔
      (document.loadedConstant?.toList ++ vs.scalars).Pairwise Value.Agrees ∧
        (document.loadedConstant?.toList ++ vs.scalars).head? = some c := by
  rw [hshows.constant, Node.constant?_observeAll_of_loadsAs h]
  split
  · rename_i hagree
    exact (and_iff_right hagree).symm
  · rename_i hdiffer
    exact iff_of_false nofun fun hboth => hdiffer hboth.1

theorem format_eq_some_iff (htype : document.type = some (.str "string"))
    (hformat : document.format = none) {format : Value} :
    after.format = some format ↔
      (∀ tag, tag ≠ "string" → vs.tags.count tag ≤ vs.tags.count "string") ∧ vs.texts ≠ [] ∧
        ∃ detector, observer.detectors.find? (vs.texts.all ·.accepts) = some detector ∧
          detector.name.truthy? = some format := by
  have hformats : node.formats = none := by
    rw [h.formats_eq, hformat]
    split <;> rfl
  rw [hshows.format, ← h.primaryType?_eq_string_iff htype]
  by_cases hprimary : (node.observeAll observer vs).primaryType? = some "string"
  · rw [if_pos hprimary, and_iff_right hprimary,
      Node.format?_observeAll_of_formats_eq_none hformats]
    by_cases htexts : vs.texts = []
    · simp [htexts]
    · rw [if_neg htexts, and_iff_right htexts, Option.bind_map]
      exact Option.bind_eq_some_iff
  · rw [if_neg hprimary]
    exact iff_of_false nofun fun hall => hprimary hall.1

end Document.LoadsAs

/-! ## The document that is read after a load -/

namespace Session

/-- **Constants and formats are looked for anew after a load.** Take any calls of which the last load
and the samples behind it are left, and a position that both the loaded document and the one that is
read afterwards show. Where no type is prescribed, there is a constant afterwards exactly if the
loaded constant and the scalars that reached the position since are one value. Behind the single type
string without a format, there is a format afterwards exactly if strings lead among the values that
reached the position, and a detector accepts all of them. Where a type is prescribed, nothing is
looked for. -/
theorem detection_after_load (options : Options) {calls : List Call} {v : Value} {vs : Batch}
    (hrecent : Recent.ofHistory (changes { options } calls) = ⟨some v, vs⟩) (hvs : vs ≠ [])
    {loaded document : Document} (hloaded : Document.ofValue v = .ok loaded)
    (hdocument : (run { options } calls).1.document = .ok document)
    {position : Position} {before after : Document} (hbefore : loaded.sub? position = some before)
    (hafter : document.sub? position = some after) :
    let reached := vs.reached position
    let scalars := before.loadedConstant?.toList ++ reached.scalars
    (options.typeAt? position = none →
      (∀ c, after.constant = some c ↔ scalars.Pairwise Value.Agrees ∧ scalars.head? = some c) ∧
      (before.type = some (.str "string") → before.format = none → ∀ format,
        after.format = some format ↔
          (∀ tag, tag ≠ "string" → reached.tags.count tag ≤ reached.tags.count "string") ∧
          reached.texts ≠ [] ∧
          ∃ detector, options.observer.detectors.find? (reached.texts.all ·.accepts) =
            some detector ∧ detector.name.truthy? = some format)) ∧
    ∀ type, options.typeAt? position = some type →
      after.constant = none ∧
        after.format = if type = "datetime" then some (.str "date-time") else none := by
  intro reached scalars
  obtain ⟨root, node, version, -, -, hloads, rfl⟩ :=
    exists_loaded_of_sub? hrecent hvs hloaded hdocument hbefore hafter
  have hoverride : (node.observeAll options.observer reached).override = none := by
    rw [Node.override_observeAll]
    exact hloads.override_eq
  constructor
  · intro htype
    have hshows := shows_assemble_prescribedAt htype version hoverride
    exact ⟨fun c => hloads.constant_eq_some_iff hshows,
      fun hstring hformat format => hloads.format_eq_some_iff hshows hstring hformat⟩
  · intro type htype
    exact (tells_assemble_prescribedAt htype version hoverride).2

/-- Options under which the known formats are looked for. -/
def knownOptions : Options :=
  ⟨[], .unlimited, ⟨false, Detector.known⟩, none, ""⟩

/-- A document with a text that has neither a constant nor a format. -/
def plainDocument : Value :=
  .object [("type", .str "object"),
    ("properties", .object [("a", .object [("type", .str "string")])]),
    ("required", .list [.str "a"])]

theorem detection_after_load_plainDocument :
    ∃ document after,
      (run { options := knownOptions }
        [.load plainDocument, .add (.object [("a", .str "a@b.co")])]).1.document = .ok document ∧
      document.sub? [some "a"] = some after ∧
      after.constant = some (.str "a@b.co") ∧ after.format = some (.str "email") := by
  have hrecent : Recent.ofHistory (changes { options := knownOptions }
      [.load plainDocument, .add (.object [("a", .str "a@b.co")])]) =
        ⟨some plainDocument, [.object [("a", .str "a@b.co")]]⟩ := rfl
  have hdetection := @detection_after_load knownOptions _ _ _ hrecent nofun _ _ rfl rfl
    [some "a"] _ _ rfl rfl
  obtain ⟨hconstant, hformat⟩ := hdetection.1 rfl
  have hlead : ∀ tag, tag ≠ "string" → ["string"].count tag ≤ ["string"].count "string" := by
    intro tag htag
    simp [Ne.symm htag]
  exact ⟨_, _, rfl, rfl, (hconstant _).mpr ⟨List.pairwise_singleton _ _, rfl⟩,
    (hformat rfl rfl _).mpr ⟨hlead, nofun, _, rfl, rfl⟩⟩

/-- Two texts that differ, and have no known format in common. -/
def plainCalls : List Call :=
  [.add (.object [("a", .str "x")]), .add (.object [("a", .str "y")])]

def plainText : String :=
  "\x7b\"type\":\"object\",\"properties\":\x7b\"a\":\x7b\"type\":\"string\"\x7d\x7d," ++
  "\"required\":[\"a\"]\x7d"

theorem start_knownOptions : start { version := .null } = .ok { options := knownOptions } := rfl

set_option maxRecDepth 8000 in
theorem text_plainCalls : (run { options := knownOptions } plainCalls).1.text = .ok plainText := rfl

theorem parse_plainText : parse plainText = .ok plainDocument := by
  have hindent : ∀ c ∈ "".toList, Json.isSpace c = true := fun _ hc => absurd hc List.not_mem_nil
  obtain ⟨document, hdocument, -⟩ := except_bind_eq_ok text_plainCalls
  rw [parse_of_text start_knownOptions (by decide) hindent (by decide) hdocument text_plainCalls,
    ← Except.ok.inj hdocument]
  rfl

/-- A constant and a format that two texts had ruled out are there again after the load of what the
two had led to, and one more text. -/
theorem revived_plainText :
    ∃ loaded document before after,
      (run { options := knownOptions } plainCalls).1.text = .ok plainText ∧
      (run { options := knownOptions } plainCalls).1.document = .ok loaded ∧
      (run { options := knownOptions }
        [.load (.str plainText), .add (.object [("a", .str "a@b.co")])]).1.document = .ok document ∧
      loaded.type = some (.str "object") ∧ loaded.sub? [some "a"] = some before ∧
      document.sub? [some "a"] = some after ∧
      before.type = some (.str "string") ∧ before.constant = none ∧ before.format = none ∧
      after.constant = some (.str "a@b.co") ∧ after.format = some (.str "email") := by
  rw [run_cons, step_load_text parse_plainText rfl, ← run_cons]
  exact ⟨_, _, _, _, text_plainCalls, rfl, rfl, rfl, rfl, rfl, rfl, rfl, rfl, rfl, rfl⟩

end Session

end SampleSchema
