import Stepwise.Proofs.Copying.Faults

/-!
Copies are the trees that values unfold to.

A value has a copy just if it unfolds to a finite tree of data that is not too deep, and the copy is
this tree.  If it has none, the first fault in the order of reading says why.
-/

namespace Stepwise.Record

variable {heap : Heap} {limit : Nat}

theorem unfoldEntries_paired {entries : List (Key × Value)} {copies : List Snapshot}
    (unfold : UnfoldAll heap
      (entries.flatMap fun entry => [(entry.1.toValue heap).1, entry.2]) copies) :
    UnfoldEntries heap entries (paired copies) ∧ entriesDepth (paired copies) = itemsDepth copies := by
  induction entries generalizing copies with
  | nil =>
      cases unfold
      exact ⟨.nil, rfl⟩
  | cons entry entries inductionHypothesis =>
      cases unfold with
      | cons key rest =>
          cases rest with
          | cons item rest =>
              obtain ⟨unfold, same⟩ := inductionHypothesis rest
              refine ⟨.cons key item unfold, ?_⟩
              rw [paired, entriesDepth, itemsDepth, itemsDepth, same, Nat.max_assoc]

theorem unfolds_assembled {active : List Open} {value : Value} {copies : List Snapshot}
    (free : blocked? heap active value = none) (unfold : UnfoldAll heap (value.children heap) copies) :
    Unfolds heap value (assembled value copies) ∧
      (assembled value copies).depth ≤ itemsDepth copies := by
  cases value with
  | none => exact ⟨.none, Nat.zero_le _⟩
  | bool truth => exact ⟨.bool truth, Nat.zero_le _⟩
  | int number => exact ⟨.int number, Nat.zero_le _⟩
  | float number => exact ⟨.float number, Nat.zero_le _⟩
  | str content => exact ⟨.str content, Nat.zero_le _⟩
  | tuple tag items => exact ⟨.tuple unfold, Nat.le_refl _⟩
  | list ref => exact ⟨.list unfold, Nat.le_refl _⟩
  | dict ref =>
      obtain ⟨unfold, same⟩ := unfoldEntries_paired unfold
      exact ⟨.dict unfold, Nat.le_of_eq same⟩
  | _ => cases free

theorem unfoldAll_of_each {levels : Nat} {values : List Value} {copies : List Snapshot}
    (each : List.Forall₂ (fun value copy => Unfolds heap value copy ∧ copy.depth < levels) values
      copies) : UnfoldAll heap values copies ∧ itemsDepth copies ≤ levels := by
  induction each with
  | nil => exact ⟨.nil, Nat.zero_le _⟩
  | cons first _ others => exact ⟨.cons first.1 others.1, Nat.max_le.mpr ⟨first.2, others.2⟩⟩

theorem unfolds_of_captured {levels : Nat} {active : List Open} {value : Value} {copy : Snapshot}
    (captured : captureIn heap limit levels active value = .ok copy) :
    Unfolds heap value copy ∧ copy.depth < levels := by
  induction levels generalizing active value copy with
  | zero => cases captured
  | succ levels inductionHypothesis =>
      obtain ⟨free, copies, rfl, each⟩ := captureIn_eq_ok captured
      obtain ⟨unfold, bounded⟩ := unfoldAll_of_each (each.imp fun _ _ => inductionHypothesis)
      obtain ⟨unfolds, below⟩ := unfolds_assembled free unfold
      exact ⟨unfolds, Nat.lt_succ_of_le (Nat.le_trans below bounded)⟩

/-- A container is open at a node: from the outset, or on the way from the root to the node. -/
def IsOpenAt (heap : Heap) (active : List Open) (value : Value) (path : List Nat) (opened : Open) :
    Prop :=
  opened ∈ active ∨ ∃ outer index inner container, path = outer ++ index :: inner ∧
    value.at? heap outer = some container ∧ container.opened? = some opened

theorem isOpenAt_nil {active : List Open} {value : Value} {opened : Open} :
    IsOpenAt heap active value [] opened ↔ opened ∈ active := by
  refine ⟨?_, .inl⟩
  rintro (member | ⟨outer, index, inner, _, none, -⟩)
  · exact member
  · cases outer <;> cases none

theorem isOpenAt_cons {active : List Open} {value child : Value} {index : Nat} {path : List Nat}
    {opened : Open} (found : (value.children heap)[index]? = some child) :
    IsOpenAt heap active value (index :: path) opened ↔
      IsOpenAt heap (opening active value) child path opened := by
  constructor
  · rintro (member | ⟨outer, other, inner, container, same, here, opens⟩)
    · exact .inl (List.mem_append_right _ member)
    · cases outer with
      | nil =>
          cases here
          exact .inl (List.mem_append_left _ (Option.mem_toList.mpr opens))
      | cons first outer =>
          cases same
          rw [Value.at?_cons, found] at here
          exact .inr ⟨outer, other, inner, container, rfl, here, opens⟩
  · rintro (member | ⟨outer, other, inner, container, rfl, here, opens⟩)
    · rcases List.mem_append.mp member with itself | member
      · exact .inr ⟨[], index, path, value, rfl, rfl, Option.mem_toList.mp itself⟩
      · exact .inl member
    · refine .inr ⟨index :: outer, other, inner, container, rfl, ?_, opens⟩
      rw [Value.at?_cons, found]
      exact here

/-- What is wrong with a node: it is too deep, or else it has no data form or is open already. -/
inductive NodeFault (heap : Heap) (limit levels : Nat) (active : List Open) (value : Value)
    (path : List Nat) (node : Value) : CaptureError → Prop where
  | tooDeep : levels ≤ path.length → NodeFault heap limit levels active value path node (.tooDeep limit)
  | opaqueType : path.length < levels → node.hasDataForm = false →
      NodeFault heap limit levels active value path node (.opaqueType (node.typeName heap))
  | cycle {opened : Open} : path.length < levels → node.opened? = some opened →
      IsOpenAt heap active value path opened → NodeFault heap limit levels active value path node .cycle

theorem nodeFault_nil {levels : Nat} {active : List Open} {value : Value} {error : CaptureError} :
    NodeFault heap limit levels active value [] value error ↔
      fault? heap limit levels active value [] = some error := by
  cases levels with
  | zero =>
      constructor
      · intro wrong
        cases wrong with
        | tooDeep _ => rfl
        | opaqueType shallow _ | cycle shallow _ _ => cases shallow
      · intro wrong
        cases wrong
        exact .tooDeep (Nat.le_refl _)
  | succ levels =>
      have shallow : ([] : List Nat).length < levels + 1 := Nat.succ_pos _
      constructor
      · intro wrong
        cases wrong with
        | tooDeep deep => cases deep
        | opaqueType _ foreign => simp [fault?, blocked?, foreign]
        | cycle _ opens already =>
            have data : value.hasDataForm = true := by
              cases value <;> first | rfl | cases opens
            simp [fault?, blocked?, data, opens, isOpenAt_nil.mp already]
      · intro wrong
        simp only [fault?, blocked?] at wrong
        split at wrong
        · split at wrong
          · rename_i already
            cases wrong
            obtain ⟨opened, opens, already⟩ := (Option.any_eq_true _ _).mp already
            exact .cycle shallow opens (isOpenAt_nil.mpr (List.contains_iff_mem.mp already))
          · cases wrong
        · rename_i foreign
          cases wrong
          exact .opaqueType shallow (by simpa using foreign)

theorem nodeFault_cons {levels : Nat} {active : List Open} {value child node : Value} {index : Nat}
    {path : List Nat} {error : CaptureError} (found : (value.children heap)[index]? = some child) :
    NodeFault heap limit levels active value (index :: path) node error ↔
      NodeFault heap limit (levels - 1) (opening active value) child path node error := by
  constructor
  · intro wrong
    cases wrong with
    | tooDeep deep => exact .tooDeep (Nat.sub_le_of_le_add deep)
    | opaqueType shallow foreign => exact .opaqueType (Nat.lt_sub_of_add_lt shallow) foreign
    | cycle shallow opens already =>
        exact .cycle (Nat.lt_sub_of_add_lt shallow) opens ((isOpenAt_cons found).mp already)
  · intro wrong
    cases wrong with
    | tooDeep deep => exact .tooDeep (Nat.le_add_of_sub_le deep)
    | opaqueType shallow foreign => exact .opaqueType (Nat.add_lt_of_lt_sub shallow) foreign
    | cycle shallow opens already =>
        exact .cycle (Nat.add_lt_of_lt_sub shallow) opens ((isOpenAt_cons found).mpr already)

theorem fault?_eq_some_iff {levels : Nat} {active : List Open} {value : Value} {path : List Nat}
    {error : CaptureError} : fault? heap limit levels active value path = some error ↔
      ∃ node, value.at? heap path = some node ∧
        NodeFault heap limit levels active value path node error := by
  induction path generalizing levels active value with
  | nil =>
      rw [← nodeFault_nil]
      refine ⟨fun wrong => ⟨value, rfl, wrong⟩, ?_⟩
      rintro ⟨node, here, wrong⟩
      cases here
      exact wrong
  | cons index path inductionHypothesis =>
      have step : fault? heap limit levels active value (index :: path) =
          (value.children heap)[index]?.bind fun child =>
            fault? heap limit (levels - 1) (opening active value) child path := by
        cases levels <;> rfl
      rw [step, Value.at?_cons, Option.bind_eq_some_iff]
      constructor
      · rintro ⟨child, found, wrong⟩
        obtain ⟨node, here, wrong⟩ := inductionHypothesis.mp wrong
        exact ⟨node, by rw [found]; exact here, (nodeFault_cons found).mpr wrong⟩
      · rintro ⟨node, here, wrong⟩
        obtain ⟨child, found, here⟩ := Option.bind_eq_some_iff.mp here
        exact ⟨child, found, inductionHypothesis.mpr ⟨node, here, (nodeFault_cons found).mp wrong⟩⟩

/-- The node at a path cannot be copied: it is deeper than a limit, or else it has no data form, or it
is a list or dict that lies inside itself. -/
inductive Offends (heap : Heap) (limit : Nat) (value : Value) (path : List Nat) :
    CaptureError → Prop where
  | tooDeep {node : Value} : value.at? heap path = some node → limit < path.length →
      Offends heap limit value path (.tooDeep limit)
  | opaqueType {node : Value} : value.at? heap path = some node → path.length ≤ limit →
      node.hasDataForm = false → Offends heap limit value path (.opaqueType (node.typeName heap))
  | cycle {node : Value} {opened : Open} {outer inner : List Nat} {index : Nat} :
      value.at? heap path = some node → path.length ≤ limit → node.opened? = some opened →
      path = outer ++ index :: inner → value.at? heap outer = some node →
      Offends heap limit value path .cycle

theorem offends_iff {value : Value} {path : List Nat} {error : CaptureError} :
    Offends heap limit value path error ↔
      fault? heap limit (limit + 1) [] value path = some error := by
  rw [fault?_eq_some_iff]
  constructor
  · intro wrong
    cases wrong with
    | tooDeep here deep => exact ⟨_, here, .tooDeep deep⟩
    | opaqueType here shallow foreign => exact ⟨_, here, .opaqueType (Nat.lt_succ_of_le shallow) foreign⟩
    | cycle here shallow opens same outside =>
        refine ⟨_, here, .cycle (Nat.lt_succ_of_le shallow) opens (.inr ?_)⟩
        exact ⟨_, _, _, _, same, outside, opens⟩
  · rintro ⟨node, here, wrong⟩
    cases wrong with
    | tooDeep deep => exact .tooDeep here deep
    | opaqueType shallow foreign => exact .opaqueType here (Nat.le_of_lt_succ shallow) foreign
    | cycle shallow opens already =>
        rcases already with none | ⟨outer, index, inner, container, same, outside, opensToo⟩
        · cases none
        · rw [Value.eq_of_opened? opensToo opens] at outside
          exact .cycle here (Nat.le_of_lt_succ shallow) opens same outside

theorem capture_eq_error_iff {value : Value} {error : CaptureError} :
    capture heap limit value = .error error ↔ ∃ path, Offends heap limit value path error ∧
      ∀ earlier, earlier < path → ∀ other, ¬ Offends heap limit value earlier other := by
  rw [capture, captureIn_eq_error_iff]
  refine exists_congr fun path => and_congr offends_iff.symm (forall₂_congr fun earlier _ => ?_)
  simp only [offends_iff, Option.eq_none_iff_forall_not_mem, Option.mem_def]

theorem exists_capture {value : Value} (fine : ∀ path error, ¬ Offends heap limit value path error) :
    ∃ copy, capture heap limit value = .ok copy := by
  cases result : capture heap limit value with
  | ok copy => exact ⟨copy, rfl⟩
  | error error =>
      obtain ⟨path, wrong, -⟩ := capture_eq_error_iff.mp result
      exact absurd wrong (fine path error)

theorem capture_eq_ok_iff {value : Value} {copy : Snapshot} :
    capture heap limit value = .ok copy ↔ Unfolds heap value copy ∧ copy.depth ≤ limit := by
  refine ⟨fun captured => ?_, fun ⟨unfolds, shallow⟩ => ?_⟩
  · obtain ⟨unfolds, below⟩ := unfolds_of_captured captured
    exact ⟨unfolds, Nat.le_of_lt_succ below⟩
  · have fine : ∀ path error, ¬ Offends heap limit value path error := by
      intro path error wrong
      cases wrong with
      | tooDeep here deep =>
          obtain ⟨_, -, below⟩ := unfolds.at? here
          omega
      | opaqueType here _ foreign =>
          obtain ⟨_, inner, -⟩ := unfolds.at? here
          cases foreign.symm.trans inner.hasDataForm
      | @cycle node _ outer inner index here _ _ same outside =>
          obtain ⟨_, unfoldsNode, -⟩ := unfolds.at? outside
          rw [same, Value.at?_append, outside] at here
          exact unfoldsNode.not_inside index inner here
    obtain ⟨other, captured⟩ := exists_capture fine
    rw [captured, (unfolds_of_captured captured).1.unique unfolds]

/-- A value that is copied at most to a depth, and what its copy is.

A copy is the finite tree of data that the value unfolds to, and there is one just if no node is deeper
than the limit and none is of a kind without a data form.  A failure is the fault that comes first in
the order of reading.  So a greater limit gives the same copy, and only a container inside itself is
reported as one. -/
theorem capture_unfolds (heap : Heap) (limit : Nat) (value : Value) :
    (∀ copy, capture heap limit value = .ok copy ↔ Unfolds heap value copy ∧ copy.depth ≤ limit) ∧
    ((∃ copy, capture heap limit value = .ok copy) ↔ ∀ path node, value.at? heap path = some node →
      path.length ≤ limit ∧ node.hasDataForm = true) ∧
    (∀ error, capture heap limit value = .error error ↔
      ∃ path, Offends heap limit value path error ∧
        ∀ earlier, earlier < path → ∀ other, ¬ Offends heap limit value earlier other) ∧
    (∀ copy larger, capture heap limit value = .ok copy → limit ≤ larger →
      capture heap larger value = .ok copy) ∧
    (capture heap limit value = .error .cycle → ∃ path index inner container,
      value.at? heap path = some container ∧
        container.at? heap (index :: inner) = some container) := by
  refine ⟨fun _ => capture_eq_ok_iff, ⟨?_, ?_⟩, fun _ => capture_eq_error_iff, ?_, ?_⟩
  · rintro ⟨copy, captured⟩ path node found
    obtain ⟨unfolds, shallow⟩ := capture_eq_ok_iff.mp captured
    obtain ⟨inner, unfoldsNode, below⟩ := unfolds.at? found
    exact ⟨by omega, unfoldsNode.hasDataForm⟩
  · intro all
    refine exists_capture fun path error wrong => ?_
    cases wrong with
    | tooDeep here deep => exact absurd (all path _ here).1 (Nat.not_le_of_lt deep)
    | opaqueType here _ foreign => cases foreign.symm.trans (all path _ here).2
    | @cycle node _ outer inner index here _ _ same outside =>
        rw [same, Value.at?_append, outside] at here
        obtain ⟨deeper, long, found⟩ := Value.exists_deep here (limit + 1)
        have reached : value.at? heap (outer ++ deeper) = some node := by
          rw [Value.at?_append, outside]
          exact found
        have shallow := (all _ _ reached).1
        rw [List.length_append] at shallow
        omega
  · intro copy larger captured more
    obtain ⟨unfolds, shallow⟩ := capture_eq_ok_iff.mp captured
    exact capture_eq_ok_iff.mpr ⟨unfolds, Nat.le_trans shallow more⟩
  · intro failed
    obtain ⟨path, wrong, -⟩ := capture_eq_error_iff.mp failed
    cases wrong with
    | @cycle node _ outer inner index here _ _ same outside =>
        rw [same, Value.at?_append, outside] at here
        exact ⟨outer, index, inner, node, outside, here⟩

/-- Depth is tested first: a list inside itself is too deep where nothing may be inside of it. -/
example :
    let heap : Heap := { Heap.empty with lists := #[#[.list 0]] }
    capture heap 1 (.list 0) = .error .cycle ∧ capture heap 0 (.list 0) = .error (.tooDeep 0) :=
  ⟨rfl, rfl⟩

end Stepwise.Record
