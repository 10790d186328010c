import RootCx.Lib.Slots
import RootCx.Workflow.Executor

/-! # Ports of a node's output

The output of a node is stored once and read by two parties: routing asks which ports have
items, and a node behind an edge reads the items of one port.  A number of a port has eight
bits for both of them, while a Switch node has a port for each of its cases.
-/

namespace RootCx.Workflow

open List

/-! ## One output -/

namespace Items

variable {output : List (List Item)} {port : UInt8}

theorem decodePort_encode (output : List (List Item)) (port : UInt8) :
    decodePort (encode output) port = output[port.toNat]?.getD [] := by
  unfold encode decodePort
  simp only [getElem?_map]
  cases output[port.toNat]? with
  | none => rfl
  | some items => simp [Function.comp_def, Json.get]

theorem mem_activePorts_encode :
    port ∈ activePorts (encode output) ↔
      ∃ index items, output[index]? = some items ∧ items ≠ [] ∧ UInt8.ofNat index = port := by
  simp only [encode, activePorts, mem_map, mem_filter]
  constructor
  · rintro ⟨⟨value, index⟩, ⟨mem, filled⟩, rfl⟩
    have found := mk_mem_zipIdx_iff_getElem?.mp mem
    rw [getElem?_map, Option.map_eq_some_iff] at found
    obtain ⟨items, there, rfl⟩ := found
    exact ⟨index, items, there, by simpa using filled, rfl⟩
  · rintro ⟨index, items, there, filled, rfl⟩
    refine ⟨(.arr (items.map fun item => .obj [("json", item.json)]), index), ⟨?_, by simpa using filled⟩, rfl⟩
    rw [mk_mem_zipIdx_iff_getElem?, getElem?_map, there]
    rfl

/-- A port with items that shares its last eight bits with one that an edge can name does so
    with one that has items. -/
def Unaliased (output : List (List Item)) : Prop :=
  ∀ index items, output[index]? = some items → items ≠ [] → output[index % 256]?.getD [] ≠ []

theorem toNat_ofNat (index : Nat) : (UInt8.ofNat index).toNat = index % 256 := by
  simp

theorem activePorts_iff :
    (∀ port, port ∈ activePorts (encode output) ↔ decodePort (encode output) port ≠ []) ↔ Unaliased output := by
  simp only [decodePort_encode, mem_activePorts_encode]
  constructor
  · intro agrees index items there filled
    rw [← toNat_ofNat]
    exact (agrees (UInt8.ofNat index)).mp ⟨index, items, there, filled, rfl⟩
  · intro unaliased port
    constructor
    · rintro ⟨index, items, there, filled, rfl⟩
      rw [toNat_ofNat]
      exact unaliased index items there filled
    · intro filled
      cases there : output[port.toNat]? with
      | none => exact absurd (by rw [there]; rfl) filled
      | some items =>
        rw [there] at filled
        exact ⟨port.toNat, items, there, filled, UInt8.ofNat_toNat⟩

end Items

/-! ## Edges -/

section Edges

variable (graph : WorkflowGraph) (id : Text) (outputs : Outputs)

/-- The items that a stored output hands to an edge. -/
def carried (edge : WorkflowEdge) : List Item :=
  match outputs edge.source with
  | some output => Items.decodePort output edge.fromOutput
  | none => []

theorem collectInputsByPort_getElem? {maxPort : Nat} (greatest : ((graph.inbound id).map (·.toInput.toNat)).max? = some maxPort)
    (port : Nat) :
    (collectInputsByPort graph id outputs)[port]? =
      (replicate (maxPort + 1) [])[port]?.map
        (· ++ ((graph.inbound id).filter (·.toInput.toNat = port)).flatMap (carried outputs)) := by
  have distributed : collectInputsByPort graph id outputs =
      (graph.inbound id).foldl (fun ports edge => ports.modify edge.toInput.toNat (· ++ carried outputs edge))
        (replicate (maxPort + 1) []) := by
    unfold collectInputsByPort
    simp only [greatest]
    apply foldl_ext
    intro ports edge _
    unfold carried
    cases outputs edge.source with
    | some output => rfl
    | none =>
      simp only [append_nil]
      exact (modify_id _ _).symm
  rw [distributed]
  exact Slots.foldl_modify_append (fun edge : WorkflowEdge => edge.toInput.toNat) (carried outputs) _ _ port

variable {graph id outputs}

theorem collectInputsByPort_port {edge : WorkflowEdge} (inbound : edge ∈ graph.inbound id) :
    (collectInputsByPort graph id outputs)[edge.toInput.toNat]? =
      some (((graph.inbound id).filter (·.toInput.toNat = edge.toInput.toNat)).flatMap (carried outputs)) := by
  have named : edge.toInput.toNat ∈ (graph.inbound id).map (·.toInput.toNat) := mem_map_of_mem inbound
  cases greatest : ((graph.inbound id).map (·.toInput.toNat)).max? with
  | none =>
    rw [max?_eq_none_iff.mp greatest] at named
    cases named
  | some maxPort =>
    have within : edge.toInput.toNat < maxPort + 1 := Nat.lt_succ_of_le ((max?_eq_some_iff.mp greatest).2 _ named)
    rw [collectInputsByPort_getElem? graph id outputs greatest, getElem?_replicate_of_lt within]
    rfl

/-- A node has an input item exactly when one of its edges carries one. -/
theorem collectInputsByPort_filled :
    (∃ item, item ∈ (collectInputsByPort graph id outputs).flatten) ↔ ∃ edge ∈ graph.inbound id, carried outputs edge ≠ [] := by
  constructor
  · rintro ⟨item, mem⟩
    obtain ⟨items, inside, mem⟩ := mem_flatten.mp mem
    obtain ⟨port, there⟩ := mem_iff_getElem?.mp inside
    cases greatest : ((graph.inbound id).map (·.toInput.toNat)).max? with
    | none =>
      unfold collectInputsByPort at there
      simp only [greatest] at there
      cases there
    | some maxPort =>
      rw [collectInputsByPort_getElem? graph id outputs greatest, Option.map_eq_some_iff] at there
      obtain ⟨before, empty, rfl⟩ := there
      obtain rfl : before = [] := eq_of_mem_replicate (mem_of_getElem? empty)
      obtain ⟨edge, found, brought⟩ := mem_flatMap.mp mem
      exact ⟨edge, (mem_filter.mp found).1, ne_nil_of_mem brought⟩
  · rintro ⟨edge, inbound, filled⟩
    obtain ⟨item, brought⟩ := exists_mem_of_ne_nil _ filled
    refine ⟨item, mem_flatten.mpr ⟨_, mem_of_getElem? (collectInputsByPort_port inbound), ?_⟩⟩
    exact mem_flatMap.mpr ⟨edge, mem_filter.mpr ⟨inbound, decide_eq_true rfl⟩, brought⟩

end Edges

/-! ## Branching nodes -/

/-- Every item goes to one of the ports, and each port has its items in their order. -/
structure Sends (count : Nat) (place : Item → Nat) (items : List Item) (ports : List (List Item)) : Prop where
  length : ports.length = count
  within : ∀ item ∈ items, place item < count
  port : ∀ index < count, ports[index]? = some (items.filter (place · = index))

section Branching

variable (engine : Expr.Engine) (params : Json) (items : List Item) (outputs : Outputs)

def ifPlace (item : Item) : Nat :=
  if (((Expr.resolve engine params item.json outputs).get "condition").getD .null).isTruthy then 0 else 1

theorem executeIf_sends :
    ∃ ports, executeIf engine params items outputs = (.succeeded, ports, none) ∧
      Sends 2 (ifPlace engine params outputs) items ports := by
  refine ⟨_, rfl, rfl, fun item _ => ?_, fun index small => ?_⟩
  · unfold ifPlace
    split <;> decide
  · match index, small with
    | 0, _ =>
      refine congrArg some (filter_congr fun item _ => ?_)
      unfold ifPlace
      split <;> simp_all
    | 1, _ =>
      refine congrArg some (filter_congr fun item _ => ?_)
      unfold ifPlace
      split <;> simp_all

/-- The first case that equals a value, or the default behind the last one. -/
inductive Matched (cases : List Json) (value : Json) (place : Nat) : Prop where
  | case (found : Json) (there : cases[place]? = some found) (same : found.same value = true)
      (first : ∀ earlier < place, ∀ other, cases[earlier]? = some other → other.same value = false)
  | default (last : place = cases.length) (differs : ∀ other ∈ cases, other.same value = false)

def switchCases : List Json := ((params.get "cases").bind Json.asArray).getD []

def switchValue (item : Item) : Json := ((Expr.resolve engine params item.json outputs).get "value").getD .null

def switchPlace (item : Item) : Nat :=
  ((switchCases params).findIdx? (Json.same · (switchValue engine params outputs item))).getD (switchCases params).length

theorem switchPlace_matched (item : Item) :
    Matched (switchCases params) (switchValue engine params outputs item) (switchPlace engine params outputs item) := by
  unfold switchPlace
  cases index : (switchCases params).findIdx? (Json.same · (switchValue engine params outputs item)) with
  | none => exact .default rfl fun other mem => by simpa using findIdx?_eq_none_iff.mp index other mem
  | some place =>
    obtain ⟨within, same, first⟩ := findIdx?_eq_some_iff_getElem.mp index
    refine .case _ (getElem?_eq_getElem within) same fun earlier before other there => ?_
    obtain ⟨small, rfl⟩ := List.getElem?_eq_some_iff.mp there
    simpa using first earlier before

theorem Matched.le {cases : List Json} {value : Json} {place : Nat} (matched : Matched cases value place) :
    place ≤ cases.length := by
  obtain ⟨found, there, -, -⟩ | ⟨rfl, -⟩ := matched
  · exact (List.getElem?_eq_some_iff.mp there).1.le
  · exact le_refl _

theorem executeSwitch_sends :
    ∃ ports, executeSwitch engine params items outputs = (.succeeded, ports, none) ∧
      Sends ((switchCases params).length + 1) (switchPlace engine params outputs) items ports := by
  have distributed : executeSwitch engine params items outputs =
      (.succeeded, items.foldl (fun ports item => ports.modify (switchPlace engine params outputs item) (· ++ [item]))
        (replicate ((switchCases params).length + 1) []), none) := by
    unfold executeSwitch switchPlace switchCases
    cases (params.get "cases").bind Json.asArray <;> rfl
  refine ⟨_, distributed, ?_, fun item _ => ?_, fun index small => ?_⟩
  · rw [Slots.foldl_modify_length _ fun item => [item], length_replicate]
  · exact Nat.lt_succ_of_le (switchPlace_matched engine params outputs item).le
  · rw [Slots.foldl_modify_append _ fun item => [item], getElem?_replicate_of_lt small]
    simp [flatMap_singleton']

end Branching

/-! ## Routing and reading agree -/

def storedOutputs (outputs : Text → Option (List (List Item))) : Outputs := fun id => (outputs id).map Items.encode

def activeOutputs (outputs : Text → Option (List (List Item))) : Ports :=
  fun id => (outputs id).map fun output => Items.activePorts (Items.encode output)

/-- Whether routing follows an edge. -/
def routes (active : Ports) (edge : WorkflowEdge) : Bool := (active edge.source).any (·.contains edge.fromOutput)

/-- What is read of the outputs of nodes is what was stored, and routing follows the edges
    that carry items. -/
structure PortsAgree (outputs : Text → Option (List (List Item))) : Prop where
  decodes : ∀ id output, outputs id = some output → ∀ port : UInt8,
    Items.decodePort (Items.encode output) port = output[port.toNat]?.getD []
  active : ∀ id output, outputs id = some output → ∀ port,
    port ∈ Items.activePorts (Items.encode output) ↔ Items.decodePort (Items.encode output) port ≠ []
  edges : ∀ edge, routes (activeOutputs outputs) edge = true ↔ carried (storedOutputs outputs) edge ≠ []
  inputs : ∀ (graph : WorkflowGraph) (id : Text), ∀ edge ∈ graph.inbound id,
    (collectInputsByPort graph id (storedOutputs outputs))[edge.toInput.toNat]? =
      some (((graph.inbound id).filter (·.toInput.toNat = edge.toInput.toNat)).flatMap (carried (storedOutputs outputs)))
  nodes : ∀ (graph : WorkflowGraph) (id : Text), graph.inbound id ≠ [] →
    (shouldExecute graph id (activeOutputs outputs) = true ↔
      ∃ item, item ∈ (collectInputsByPort graph id (storedOutputs outputs)).flatten)

/-- If and Switch send each item to one port: by the truth of the condition, and by the
    case that the value matches. -/
structure Branches (engine : Expr.Engine) : Prop where
  sendsIf : ∀ params items outputs, ∃ ports, executeIf engine params items outputs = (.succeeded, ports, none) ∧
    Sends 2 (ifPlace engine params outputs) items ports
  sendsSwitch : ∀ params items outputs, ∃ ports, executeSwitch engine params items outputs = (.succeeded, ports, none) ∧
    Sends ((switchCases params).length + 1) (switchPlace engine params outputs) items ports
  matched : ∀ params outputs item,
    Matched (switchCases params) (switchValue engine params outputs item) (switchPlace engine params outputs item)

theorem branches (engine : Expr.Engine) : Branches engine :=
  ⟨executeIf_sends engine, executeSwitch_sends engine, switchPlace_matched engine⟩

theorem portsAgree {outputs : Text → Option (List (List Item))}
    (unaliased : ∀ id output, outputs id = some output → Items.Unaliased output) : PortsAgree outputs := by
  have active (id : Text) (output : List (List Item)) (produced : outputs id = some output) :=
    Items.activePorts_iff.mpr (unaliased id output produced)
  have edges (edge : WorkflowEdge) :
      routes (activeOutputs outputs) edge = true ↔ carried (storedOutputs outputs) edge ≠ [] := by
    unfold routes activeOutputs carried storedOutputs
    cases produced : outputs edge.source with
    | none => simp
    | some output => simpa using active edge.source output produced edge.fromOutput
  refine ⟨fun _ output _ => Items.decodePort_encode output, active, edges, fun _ _ _ => collectInputsByPort_port, ?_⟩
  intro graph id nonempty
  rw [collectInputsByPort_filled]
  have any : shouldExecute graph id (activeOutputs outputs) = (graph.inbound id).any (routes (activeOutputs outputs)) := by
    unfold shouldExecute
    cases inbound : graph.inbound id with
    | nil => exact absurd inbound nonempty
    | cons edge rest => rfl
  rw [any, any_eq_true]
  exact exists_congr fun edge => and_congr_right fun _ => edges edge

/-- Outputs are routed as they are read, exactly where no port beyond those that an edge can
    name reports one that is empty. -/
theorem ports_agree_iff (engine : Expr.Engine) (outputs : Text → Option (List (List Item))) :
    PortsAgree outputs ∧ Branches engine ↔ ∀ id output, outputs id = some output → Items.Unaliased output := by
  constructor
  · rintro ⟨agree, -⟩ id output produced
    exact Items.activePorts_iff.mp (agree.active id output produced)
  · exact fun unaliased => ⟨portsAgree unaliased, branches engine⟩

/-- A Switch node with 256 cases whose items match none of them. -/
def wideOutput : List (List Item) := replicate 256 [] ++ [[⟨.null⟩]]

theorem wideOutput_routed_empty : ¬PortsAgree fun _ => some wideOutput := by
  intro agree
  have reported : (0 : UInt8) ∈ Items.activePorts (Items.encode wideOutput) :=
    Items.mem_activePorts_encode.mpr ⟨256, [⟨.null⟩], rfl, List.cons_ne_nil _ _, rfl⟩
  exact (agree.active [] wideOutput rfl 0).mp reported rfl

end RootCx.Workflow
