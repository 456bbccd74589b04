import SampleSchema.Proofs.Position
import SampleSchema.Proofs.Scalar
/-!
# The constant of a document

A document shows a constant if the scalars that were seen, strings, integers, numbers and truth
values, are one value. Null and what has parts are passed over: they cannot be constants, and do not
keep a position from having one.

* `Document.constant_assemble_eq_some_iff`: the law for the batch of a fresh node.
* `Document.constant_sub?_assemble_eq_some_iff`: the same at every position of the document.
* `Document.constant_ofBatch_append`: a constant that was lost does not come back.
-/

namespace SampleSchema

theorem Batch.scalars_append (vs more : Batch) :
    scalars (vs ++ more) = vs.scalars ++ more.scalars :=
  List.filter_append vs more

namespace Document

variable (observer : Observer) (version : Option Value)

theorem constant_ofBatch (vs : Batch) :
    (ofBatch observer version vs).constant =
      if vs.scalars.Pairwise Value.Agrees then vs.scalars.head? else none := by
  rw [ofBatch_eq]
  exact Node.constant?_observeAll_fresh observer vs

theorem constant_ofBatch_eq_some_iff {vs : Batch} {c : Value} :
    (ofBatch observer version vs).constant = some c ↔
      vs.scalars.Pairwise Value.Agrees ∧ vs.scalars.head? = some c := by
  rw [constant_ofBatch]
  split
  · rename_i hagree
    exact (and_iff_right hagree).symm
  · rename_i hdiffer
    exact iff_of_false nofun fun h => hdiffer h.1

/-- Two scalars that differ take the constant away for good, whatever is seen later. -/
theorem constant_ofBatch_append {vs : Batch} (hdiffer : ¬ vs.scalars.Pairwise Value.Agrees)
    (more : Batch) : (ofBatch observer version (vs ++ more)).constant = none := by
  rw [constant_ofBatch, Batch.scalars_append]
  refine if_neg fun hagree => hdiffer ?_
  exact (List.pairwise_append.mp hagree).1

/-- **A constant is what all scalars are.** Fresh observation of a batch leads to a document with a
constant exactly if there are scalars in the batch and any two of them are equal and of one type,
and the constant is the first of them. -/
theorem constant_assemble_eq_some_iff (vs : Batch) (c : Value) :
    (assemble version (Node.observeAll observer vs {})).constant = some c ↔
      vs.scalars.Pairwise Value.Agrees ∧ vs.scalars.head? = some c :=
  constant_ofBatch_eq_some_iff observer version

/-- An object beside the only scalar: the values are not all scalars, and yet there is a
constant. -/
theorem constant_beside_object :
    let vs : Batch := [.int 1, .object []]
    vs ≠ [] ∧ (∀ v ∈ vs, v ≠ .null) ∧
      ¬ ∀ c, (assemble none (Node.observeAll ⟨false, []⟩ vs {})).constant = some c ↔
        (∀ v ∈ vs, v.primitiveType.isScalar = true) ∧ vs.Pairwise Value.Agrees ∧
          vs.head? = some c := by
  refine ⟨nofun, ?_, fun hlaw => ?_⟩
  · intro v hv
    rcases List.mem_pair.mp hv with rfl | rfl
    · exact nofun
    · exact nofun
  · have hshown :
        (assemble none (Node.observeAll ⟨false, []⟩ [.int 1, .object []] {})).constant =
          some (.int 1) := rfl
    have hscalar := ((hlaw (.int 1)).mp hshown).1 (.object []) (by simp)
    exact Bool.false_ne_true hscalar

/-- At every position that the document shows, the law is that of the values that reached it. -/
theorem constant_sub?_assemble_eq_some_iff {vs : Batch} {position : Position} {document : Document}
    (hshown : sub? position (assemble version (Node.observeAll observer vs {})) = some document)
    {c : Value} :
    document.constant = some c ↔
      (vs.reached position).scalars.Pairwise Value.Agrees ∧
        (vs.reached position).scalars.head? = some c := by
  obtain ⟨version, rfl⟩ := sub?_ofBatch observer version vs hshown
  exact constant_ofBatch_eq_some_iff observer version

end Document

end SampleSchema
