import SampleSchema.Session
import SampleSchema.Proofs.Accumulation
/-!
# The tree of a session

After every sample a session prescribes the types of the fields that it has seen so far. The
next sample is observed in a tree with prescribed types, so that prescription and observation
alternate. This module says that they need not: observation neither sees nor changes a
prescribed type, and the tree after some samples is the tree of the samples, with types
prescribed once.
-/

namespace SampleSchema

namespace Session

variable (predefined : List (String × String)) (observer : Observer)

/-- The child of a name, with the type that is prescribed for it. -/
def prescribed (name : String) (child : Node) : Node :=
  { child with override := (Table.get? name predefined).or child.override }

theorem properties_prescribe (node : Node) :
    (prescribe predefined node).properties =
      node.properties.map fun entry => (entry.1, prescribed predefined entry.1 entry.2) := by
  refine List.map_congr_left ?_
  rintro ⟨name, child⟩ -
  dsimp only
  unfold prescribed
  cases Table.get? name predefined with
  | some type => rfl
  | none =>
    rw [Option.none_or]
    cases child
    rfl

theorem prescribed_idem (name : String) (child : Node) :
    prescribed predefined name (prescribed predefined name child) =
      prescribed predefined name child := by
  unfold prescribed
  cases Table.get? name predefined <;> rfl

theorem prescribe_idem (node : Node) :
    prescribe predefined (prescribe predefined node) = prescribe predefined node := by
  apply Node.ext
  case properties =>
    rw [properties_prescribe, properties_prescribe, List.map_map]
    refine List.map_congr_left fun entry _ => ?_
    rw [Function.comp_apply, prescribed_idem]
  all_goals rfl

theorem prescribe_nil (node : Node) : prescribe [] node = node := by
  apply Node.ext
  case properties =>
    have hchildren : (prescribe [] node).properties = node.properties.map id := rfl
    rw [hchildren, List.map_id]
  all_goals rfl

theorem required_prescribe (node : Node) :
    (prescribe predefined node).required = node.required := by
  rw [Node.required, Node.required, properties_prescribe, List.filter_map]
  show ascending id (Table.names (List.map _ (node.properties.filter _))) = _
  rw [Table.names, Table.names, List.map_map]
  rfl

/-! ## Observation does not see prescribed types -/

theorem prescribed_observe (name : String) (v : Value) (child : Node) :
    prescribed predefined name (child.observe observer v) =
      (prescribed predefined name child).observe observer v := by
  unfold prescribed
  rw [Node.override_observe]
  cases v <;> rfl

theorem prescribe_observe_congr {node other : Node} (v : Value)
    (h : prescribe predefined node = prescribe predefined other) :
    prescribe predefined (node.observe observer v) =
      prescribe predefined (other.observe observer v) := by
  -- outside of the properties, prescription changes nothing
  have hsamples : node.samples = other.samples :=
    show (prescribe predefined node).samples = (prescribe predefined other).samples by rw [h]
  have hstrings : node.strings = other.strings :=
    show (prescribe predefined node).strings = (prescribe predefined other).strings by rw [h]
  have htypes : node.types = other.types :=
    show (prescribe predefined node).types = (prescribe predefined other).types by rw [h]
  have hformats : node.formats = other.formats :=
    show (prescribe predefined node).formats = (prescribe predefined other).formats by rw [h]
  have hconstant : node.constant = other.constant :=
    show (prescribe predefined node).constant = (prescribe predefined other).constant by rw [h]
  have hexemplar : node.exemplar = other.exemplar :=
    show (prescribe predefined node).exemplar = (prescribe predefined other).exemplar by rw [h]
  have hitem : node.item = other.item :=
    show (prescribe predefined node).item = (prescribe predefined other).item by rw [h]
  have hoverride : node.override = other.override :=
    show (prescribe predefined node).override = (prescribe predefined other).override by rw [h]
  apply Node.ext
  case samples =>
    show (node.observe observer v).samples = (other.observe observer v).samples
    rw [Node.samples_observe, Node.samples_observe, hsamples]
  case strings =>
    show (node.observe observer v).strings = (other.observe observer v).strings
    rw [Node.strings_observe, Node.strings_observe, hstrings]
  case types =>
    show (node.observe observer v).types = (other.observe observer v).types
    rw [Node.types_observe, Node.types_observe, htypes]
  case formats =>
    show (node.observe observer v).formats = (other.observe observer v).formats
    rw [Node.formats_observe, Node.formats_observe, hformats]
  case constant =>
    show (node.observe observer v).constant = (other.observe observer v).constant
    rw [Node.constant_observe, Node.constant_observe, hconstant]
  case exemplar =>
    show (node.observe observer v).exemplar = (other.observe observer v).exemplar
    rw [Node.exemplar_observe, Node.exemplar_observe, hexemplar, hsamples]
  case item =>
    show (node.observe observer v).item = (other.observe observer v).item
    rw [Node.item_observe, Node.item_observe, hitem]
  case override =>
    show (node.observe observer v).override = (other.observe observer v).override
    rw [Node.override_observe, Node.override_observe, hoverride]
  case properties =>
    -- the children look alike once their types are prescribed, and a step keeps them so
    have hproperties := congrArg Node.properties h
    rw [properties_prescribe, properties_prescribe] at hproperties ⊢
    rw [Node.properties_observe, Node.properties_observe]
    refine Table.map_gather_congr {} _ ?_ hproperties
    intro name a b w hab
    rw [prescribed_observe, prescribed_observe, hab]

theorem prescribe_observeAll_congr {node other : Node} (vs : Batch)
    (h : prescribe predefined node = prescribe predefined other) :
    prescribe predefined (node.observeAll observer vs) =
      prescribe predefined (other.observeAll observer vs) := by
  induction vs generalizing node other with
  | nil => exact h
  | cons v rest ih => exact ih (prescribe_observe_congr predefined observer v h)

/-! ## Fresh sessions -/

theorem ofSettings_of_start {settings : Settings} {session : Session}
    (h : start settings = .ok session) : Options.ofSettings settings = .ok session.options := by
  unfold start at h
  cases hoptions : Options.ofSettings settings with
  | error fault =>
    rw [hoptions] at h
    exact absurd h nofun
  | ok options =>
    rw [hoptions] at h
    obtain rfl := Except.ok.inj h
    rfl

theorem start_eq {settings : Settings} {session : Session} (h : start settings = .ok session) :
    session = { options := session.options } := by
  unfold start at h
  rw [ofSettings_of_start h] at h
  exact (Except.ok.inj h).symm

/-! ## Samples that count -/

variable {session : Session}

/-- A sample that is not beyond the cap is observed, and types are prescribed after it. -/
theorem add_of_not_isReached (hopen : session.options.cap.isReached session.count = false)
    (v : Value) :
    (session.add v).1 =
      { session with
        root := prescribe session.options.predefined
          (session.root.observe session.options.observer v)
        count := session.count + 1
        current := none } := by
  simp [add, hopen]

theorem add_of_unlimited (hcap : session.options.cap = .unlimited) (v : Value) :
    (session.add v).1 =
      { session with
        root := prescribe session.options.predefined
          (session.root.observe session.options.observer v)
        count := session.count + 1
        current := none } := by
  refine add_of_not_isReached ?_ v
  rw [hcap]
  rfl

/-- A session without a cap observes all its samples, and prescribes the types once. -/
theorem addAll_cons_of_unlimited (hcap : session.options.cap = .unlimited) (v : Value)
    (vs : Batch) :
    (session.addAll (v :: vs)).1 =
      { session with
        root := prescribe session.options.predefined
          (session.root.observeAll session.options.observer (v :: vs))
        count := session.count + (v :: vs).length
        current := none } := by
  induction vs generalizing session v with
  | nil => exact add_of_unlimited hcap v
  | cons w rest ih =>
    show ((session.add v).1.addAll (w :: rest)).1 = _
    -- the first sample leaves the options alone, so the induction can go on
    have hcap' : (session.add v).1.options.cap = .unlimited := by
      rw [add_of_unlimited hcap]
      exact hcap
    rw [ih hcap', add_of_unlimited hcap]
    -- prescribing after the first sample already makes no difference in the end
    have hroot := prescribe_observeAll_congr session.options.predefined session.options.observer
      (w :: rest) (prescribe_idem session.options.predefined
        (session.root.observe session.options.observer v))
    have hcount : session.count + 1 + (w :: rest).length =
        session.count + (v :: w :: rest).length := by
      simp only [List.length_cons]
      omega
    show ({ session with root := _, count := _, current := none } : Session) = _
    rw [hroot, hcount, Node.observeAll_cons _ v]

end Session

end SampleSchema
