import RootCx.Lib.JsonValue
import RootCx.Lib.Runs

/-! # Supervision policies

`extensions/agents/supervision.rs`: what an agent may do without being asked.  One
evaluator lives as long as one invocation of an agent and sees its tool calls one
after the other.  The clock is read several times within one call; here a call has
one time, in nanoseconds.
-/

namespace RootCx.Agents

open RootCx.Text List Bool

/-! ## Configuration -/

inductive SupervisionMode where
  | autonomous
  | supervised
  | strict
  deriving DecidableEq, Repr

structure RateLimit where
  max : Nat
  window : Text
  -- a `u32`
  bounded : max < 4294967296

structure SupervisionPolicy where
  action : Text
  entity : Option Text := none
  requires : Option Text := none
  rateLimit : Option RateLimit := none

structure SupervisionConfig where
  mode : SupervisionMode
  policies : List SupervisionPolicy

inductive PolicyDecision where
  | allow
  | requiresApproval (reason : Text)
  | rateLimited (retryAfterSecs : Nat)
  deriving DecidableEq, Repr

/-! ## Windows -/

/-- `str::parse::<u64>`, which takes a leading plus sign. -/
def parseU64 (text : Text) : Option Nat :=
  let digits := if text.head? = some '+' then text.tail else text
  if digits ≠ [] ∧ digits.all Char.isDigit = true ∧ digitsValue digits < 2 ^ 64 then some (digitsValue digits)
  else none

/-- A window as a number of units, and the seconds of a unit. -/
def windowUnits (window : Text) : Nat × Nat :=
  let s := trim window
  match s.dropSuffix? ['h'], s.dropSuffix? ['m'], s.dropSuffix? ['d'], s.dropSuffix? ['s'] with
  | some n, _, _, _ => ((parseU64 n).getD 1, 3600)
  | _, some n, _, _ => ((parseU64 n).getD 1, 60)
  | _, _, some n, _ => ((parseU64 n).getD 1, 86400)
  | _, _, _, some n => ((parseU64 n).getD 60, 1)
  | _, _, _, _ => ((parseU64 s).getD 3600, 1)

/-- The seconds that a window spells. -/
def windowSeconds (window : Text) : Nat := (windowUnits window).1 * (windowUnits window).2

/-- The product in 64 bits: it wraps, or panics in a build that checks for
    overflow. -/
def parseWindow (checks : Bool) (window : Text) : Option Nat :=
  if windowSeconds window < 2 ^ 64 then some (windowSeconds window)
  else if checks then none
  else some (windowSeconds window % 2 ^ 64)

/-! ## Policies and calls -/

structure ToolCall where
  tool : Text
  args : Json
  -- in nanoseconds
  now : Nat

def ToolCall.entity (call : ToolCall) : Option Text := (call.args.get "entity").bind Json.asStr

def toolAction (tool : Text) : Text :=
  if tool = "query_data" then "query"
  else if tool = "mutate_data" then "mutate"
  else tool

def SupervisionPolicy.matchesAction (policy : SupervisionPolicy) (tool : Text) : Bool :=
  policy.action == "*" || policy.action == toolAction tool

/-- A policy without an entity is about all of them. -/
def SupervisionPolicy.matchesEntity (policy : SupervisionPolicy) (call : ToolCall) : Bool :=
  policy.entity.all fun entity => call.entity == some entity

/-- `Instant::duration_since` in whole seconds. -/
def secondsSince (now t : Nat) : Nat := (now - t) / 1000000000

/-! ## The evaluator -/

structure PolicyEvaluator where
  config : SupervisionConfig
  -- the times of recent calls, by tool
  callTimes : Text → List Nat

def PolicyEvaluator.new (config : SupervisionConfig) : PolicyEvaluator := ⟨config, fun _ => []⟩

def PolicyEvaluator.setTimes (evaluator : PolicyEvaluator) (tool : Text) (times : List Nat) : PolicyEvaluator :=
  { evaluator with callTimes := Function.update evaluator.callTimes tool times }

@[simp] theorem PolicyEvaluator.setTimes_self (evaluator : PolicyEvaluator) (tool : Text) (times : List Nat) :
    (evaluator.setTimes tool times).callTimes tool = times := Function.update_self ..

variable {tool : Text} {limit : RateLimit} {now : Nat} {policy : SupervisionPolicy} {checks : Bool}
  {call : ToolCall} {config : SupervisionConfig}

@[simp] theorem PolicyEvaluator.setTimes_of_ne (evaluator : PolicyEvaluator) {other : Text} (times : List Nat)
    (different : other ≠ tool) :
    (evaluator.setTimes tool times).callTimes other = evaluator.callTimes other :=
  Function.update_of_ne different ..

/-- `as u32`. -/
def asU32 (n : Nat) : Nat := n % 4294967296

theorem asU32_of_lt {n : Nat} (small : n < 4294967296) : asU32 n = n := Nat.mod_eq_of_lt small

/-- The loop of `check_rate_limits` over the policies: the decision, if one of them
    refuses, and the times that are left.  `none` is a panic. -/
def checkRateLimits (checks : Bool) (tool : Text) (now : Nat) :
    List SupervisionPolicy → List Nat → Option (Option PolicyDecision × List Nat)
  | [], times => some (none, times)
  | policy :: rest, times =>
    if policy.matchesAction tool then
      match policy.rateLimit with
      | none => checkRateLimits checks tool now rest times
      | some limit => do
        let windowSecs ← parseWindow checks limit.window
        let times := times.filter fun t => secondsSince now t < windowSecs
        if limit.max ≤ asU32 times.length then
          -- `first().unwrap()`
          match times with
          | [] => none
          | first :: _ => some (some (.rateLimited (windowSecs - secondsSince now first)), times)
        else checkRateLimits checks tool now rest times
    else checkRateLimits checks tool now rest times

def approval : Text := "approval"

def policyReason (policy : SupervisionPolicy) (call : ToolCall) : Text :=
  match policy.entity, call.entity with
  | some policyEntity, some entity => "policy: " ++ toolAction call.tool ++ " on " ++ entity ++
      " (matched " ++ policyEntity ++ ")"
  | _, _ => "policy: " ++ toolAction call.tool ++ " requires approval"

def checkPolicies (call : ToolCall) : List SupervisionPolicy → PolicyDecision
  | [] => .allow
  | policy :: rest =>
    if policy.matchesAction call.tool && policy.matchesEntity call && policy.requires == some approval then
      .requiresApproval (policyReason policy call)
    else checkPolicies call rest

/-- The decision of a mode on a call within its limits. -/
def modeDecision (config : SupervisionConfig) (call : ToolCall) : PolicyDecision :=
  match config.mode with
  | .autonomous => .allow
  | .strict => .requiresApproval ("strict mode: " ++ call.tool ++ " requires approval")
  | .supervised => checkPolicies call config.policies

def evaluate (checks : Bool) (evaluator : PolicyEvaluator) (call : ToolCall) :
    Option (PolicyDecision × PolicyEvaluator) := do
  let (refused, times) ← checkRateLimits checks call.tool call.now evaluator.config.policies
    (evaluator.callTimes call.tool)
  match refused with
  | some decision => some (decision, evaluator.setTimes call.tool times)
  | none => some (modeDecision evaluator.config call, evaluator.setTimes call.tool (times ++ [call.now]))

/-! ## What the limits are about -/

/-- The time is within the window of the limit. -/
def RateLimit.covers (limit : RateLimit) (now t : Nat) : Bool := decide (secondsSince now t < windowSeconds limit.window)

theorem RateLimit.covers_of_later {later t : Nat} (order : now ≤ later)
    (covered : limit.covers later t = true) : limit.covers now t = true := by
  have : secondsSince now t ≤ secondsSince later t := Nat.div_le_div_right (Nat.sub_le_sub_right order t)
  simp only [RateLimit.covers, decide_eq_true_eq] at covered ⊢
  omega

/-- The policies with a limit that the evaluator applies to a tool, in order. -/
def limits (policies : List SupervisionPolicy) (tool : Text) : List (SupervisionPolicy × RateLimit) :=
  policies.filterMap fun policy => if policy.matchesAction tool then policy.rateLimit.map (policy, ·) else none

theorem mem_limits {policies : List SupervisionPolicy} :
    (policy, limit) ∈ limits policies tool ↔
      policy ∈ policies ∧ policy.matchesAction tool = true ∧ policy.rateLimit = some limit := by
  simp only [limits, mem_filterMap]
  constructor
  · rintro ⟨found, mem, given⟩
    split at given
    · rename_i matched
      obtain ⟨bound, named, same⟩ := Option.map_eq_some_iff.mp given
      cases same
      exact ⟨mem, matched, named⟩
    · cases given
  · rintro ⟨mem, matched, named⟩
    exact ⟨policy, mem, by rw [if_pos matched, named]; rfl⟩

/-- The times that a limit counts. -/
def counted (times : List Nat) (now : Nat) (limit : RateLimit) : List Nat := times.filter (limit.covers now)

/-- The limits that come up at a call: all of them up to the first one whose
    maximum is reached. -/
def comingUp (times : List Nat) (now : Nat) :
    List (SupervisionPolicy × RateLimit) → List (SupervisionPolicy × RateLimit)
  | [] => []
  | held :: rest =>
    if held.2.max ≤ (counted times now held.2).length then [held] else held :: comingUp times now rest

theorem comingUp_subset (times : List Nat) (now : Nat) :
    ∀ all : List (SupervisionPolicy × RateLimit), comingUp times now all ⊆ all
  | [] => List.Subset.refl []
  | held :: rest => by
    rw [comingUp]
    split
    · exact cons_subset_cons held (nil_subset rest)
    · exact cons_subset_cons held (comingUp_subset times now rest)

theorem comingUp_eq_self {times : List Nat} {now : Nat} :
    ∀ {all : List (SupervisionPolicy × RateLimit)},
      (∀ held ∈ all, (counted times now held.2).length < held.2.max) → comingUp times now all = all
  | [], _ => rfl
  | held :: rest, below => by
    have here := below held mem_cons_self
    have there := comingUp_eq_self fun other mem => below other (mem_cons_of_mem held mem)
    rw [comingUp, if_neg (by omega), there]

/-- A limit that does what it says at a call: it is not zero, its window fits in
    64 bits, its policy is about the entity of the call, and no recorded time that
    has left its window is within the window of another limit of the tool. -/
structure Exact (times : List Nat) (call : ToolCall) (all : List (SupervisionPolicy × RateLimit))
    (held : SupervisionPolicy × RateLimit) : Prop where
  positive : 0 < held.2.max
  fits : windowSeconds held.2.window < 2 ^ 64
  entity : held.1.matchesEntity call = true
  lasting : ∀ t ∈ times, held.2.covers call.now t = false → ∀ other ∈ all, other.2.covers call.now t = false

/-! ## One pass over the limits -/

/-- The times that are left hold all that any of the limits counts. -/
structure Kept (all : List (SupervisionPolicy × RateLimit)) (now : Nat) (full times : List Nat) : Prop where
  subset : times ⊆ full
  counts : ∀ held ∈ all, counted times now held.2 = counted full now held.2

theorem Kept.drop {all : List (SupervisionPolicy × RateLimit)} {call : ToolCall} {full times : List Nat}
    {held : SupervisionPolicy × RateLimit} (kept : Kept all call.now full times) (exact_ : Exact full call all held) :
    Kept all call.now full (counted times call.now held.2) where
  subset t mem := kept.subset (mem_of_mem_filter mem)
  counts other mem := by
    rw [← kept.counts other mem, counted, counted, counted, filter_filter]
    apply filter_congr
    intro t inside
    cases dropped : held.2.covers call.now t with
    | true => rw [Bool.and_true]
    | false => rw [exact_.lasting t (kept.subset inside) dropped other mem, Bool.false_and]

/-- What the pass finds: a limit that is reached, or that none is. -/
def Finds (full : List Nat) (now : Nat) (held : List (SupervisionPolicy × RateLimit)) (left : List Nat) :
    Option PolicyDecision → Prop
  | some decision => (∃ secs, decision = .rateLimited secs) ∧
      ∃ one ∈ comingUp full now held, one.2.max ≤ (counted full now one.2).length
  | none => ∀ one ∈ held, (counted full now one.2).length < one.2.max ∧ left.length < one.2.max

theorem parseWindow_of_fits {window : Text} (fits : windowSeconds window < 2 ^ 64) :
    parseWindow checks window = some (windowSeconds window) := if_pos fits

/-- One limit of the pass, before the ones behind it. -/
theorem parse_then_drop {all : List (SupervisionPolicy × RateLimit)} {rest : List SupervisionPolicy}
    {full times : List Nat} (matched : policy.matchesAction call.tool = true)
    (given : policy.rateLimit = some limit) (sound : Exact full call all (policy, limit))
    (short : times.length ≤ limit.max) :
    checkRateLimits checks call.tool call.now (policy :: rest) times =
      if limit.max ≤ (counted times call.now limit).length then
        some (some (.rateLimited (windowSeconds limit.window -
          secondsSince call.now ((counted times call.now limit).headD 0))), counted times call.now limit)
      else checkRateLimits checks call.tool call.now rest (counted times call.now limit) := by
  have fewer : (counted times call.now limit).length ≤ times.length := length_filter_le _ _
  have small : asU32 (counted times call.now limit).length = (counted times call.now limit).length :=
    asU32_of_lt (lt_of_le_of_lt (fewer.trans short) limit.bounded)
  have pruned : times.filter (fun t => decide (secondsSince call.now t < windowSeconds limit.window)) =
      counted times call.now limit := rfl
  have positive : 0 < limit.max := sound.positive
  rw [checkRateLimits, if_pos matched, given]
  simp only [parseWindow_of_fits sound.fits, Option.bind_eq_bind, Option.bind_some, pruned, small]
  by_cases reached : limit.max ≤ (counted times call.now limit).length
  · rw [if_pos reached, if_pos reached]
    -- the maximum is positive, so there is a first time
    cases listed : counted times call.now limit with
    | nil =>
      rw [listed] at reached
      exact absurd positive (Nat.not_lt_of_le reached)
    | cons first others => rfl
  · rw [if_neg reached, if_neg reached]

/-- Where a limit of zero counts no time, there is no first time to wait for, and
    the pass panics. -/
theorem zero_panics {rest : List SupervisionPolicy} {times : List Nat}
    (matched : policy.matchesAction tool = true) (given : policy.rateLimit = some limit)
    (zero : limit.max = 0) (fits : windowSeconds limit.window < 2 ^ 64) (none_ : counted times now limit = []) :
    checkRateLimits checks tool now (policy :: rest) times = none := by
  have pruned : times.filter (fun t => decide (secondsSince now t < windowSeconds limit.window)) = [] := none_
  rw [checkRateLimits, if_pos matched, given]
  simp only [parseWindow_of_fits fits, Option.bind_eq_bind, Option.bind_some, pruned, zero, Nat.zero_le, if_true]

/-- One pass over the policies, with all its limits exact as far as they come up.
    The induction is over the policies; `times` is what the earlier ones left. -/
theorem checkRateLimits_finds (checks : Bool) {call : ToolCall} {all : List (SupervisionPolicy × RateLimit)}
    {full : List Nat} : ∀ (policies : List SupervisionPolicy) {times : List Nat},
      Kept all call.now full times →
      (∀ held ∈ limits policies call.tool, times.length ≤ held.2.max) →
      (∀ held ∈ comingUp full call.now (limits policies call.tool), held ∈ all ∧ Exact full call all held) →
      ∃ refused left, checkRateLimits checks call.tool call.now policies times = some (refused, left) ∧
        Kept all call.now full left ∧ left.length ≤ times.length ∧
        Finds full call.now (limits policies call.tool) left refused
  | [], times, kept, _, _ => ⟨none, times, rfl, kept, le_rfl, fun _ mem => nomatch mem⟩
  | policy :: rest, times, kept, short, exact_ => by
    by_cases matched : policy.matchesAction call.tool = true
    · cases given : policy.rateLimit with
      | none =>
        have same : limits (policy :: rest) call.tool = limits rest call.tool := by
          simp [limits, given]
        rw [same] at short exact_ ⊢
        rw [checkRateLimits, if_pos matched, given]
        exact checkRateLimits_finds checks rest kept short exact_
      | some limit =>
        have here : limits (policy :: rest) call.tool = (policy, limit) :: limits rest call.tool := by
          simp [limits, matched, given]
        rw [here] at short exact_ ⊢
        have first : (policy, limit) ∈ comingUp full call.now ((policy, limit) :: limits rest call.tool) := by
          rw [comingUp]
          split <;> exact mem_cons_self
        obtain ⟨mem, sound⟩ := exact_ (policy, limit) first
        have dropped := kept.drop sound
        have count : counted times call.now limit = counted full call.now limit := kept.counts (policy, limit) mem
        have bound : times.length ≤ limit.max := short (policy, limit) mem_cons_self
        have fewer : (counted times call.now limit).length ≤ times.length := length_filter_le _ _
        rw [parse_then_drop matched given sound bound]
        by_cases reached : limit.max ≤ (counted times call.now limit).length
        · rw [if_pos reached]
          refine ⟨_, _, rfl, dropped, fewer, ⟨_, rfl⟩, (policy, limit), first, ?_⟩
          rwa [← count]
        · rw [if_neg reached]
          have next : comingUp full call.now ((policy, limit) :: limits rest call.tool) =
              (policy, limit) :: comingUp full call.now (limits rest call.tool) := by
            rw [comingUp, if_neg (by rwa [← count])]
          rw [next] at exact_
          obtain ⟨refused, left, passed, keptLeft, shorter, found⟩ := checkRateLimits_finds checks rest dropped
            (fun held mem => fewer.trans (short held (mem_cons_of_mem _ mem)))
            (fun held mem => exact_ held (mem_cons_of_mem _ mem))
          refine ⟨refused, left, passed, keptLeft, shorter.trans fewer, ?_⟩
          cases refused with
          | some decision =>
            obtain ⟨limited, one, inside, full_⟩ := found
            exact ⟨limited, one, next ▸ mem_cons_of_mem _ inside, full_⟩
          | none =>
            intro one mem
            obtain rfl | older := mem_cons.mp mem
            · rw [count] at reached shorter
              exact ⟨Nat.lt_of_not_le reached, lt_of_le_of_lt shorter (Nat.lt_of_not_le reached)⟩
            · exact found one older
    · have same : limits (policy :: rest) call.tool = limits rest call.tool := by
        simp [limits, matched]
      rw [same] at short exact_ ⊢
      rw [checkRateLimits, if_neg matched]
      exact checkRateLimits_finds checks rest kept short exact_

/-! ## What the answers should be -/

def SupervisionPolicy.concerns (policy : SupervisionPolicy) (call : ToolCall) : Bool :=
  policy.matchesAction call.tool && policy.matchesEntity call

def PolicyDecision.isRateLimited : PolicyDecision → Bool
  | .rateLimited _ => true
  | _ => false

def PolicyDecision.asksApproval : PolicyDecision → Bool
  | .requiresApproval _ => true
  | _ => false

/-- The calls of the tool that were let through, are matched by the policy and are
    within the window of its limit. -/
def spent (passed : List ToolCall) (policy : SupervisionPolicy) (limit : RateLimit) (call : ToolCall) : List ToolCall :=
  passed.filter fun earlier =>
    earlier.tool == call.tool && policy.concerns earlier && limit.covers call.now earlier.now

/-- The answer that the configuration asks for, by the calls let through before. -/
structure Right (config : SupervisionConfig) (passed : List ToolCall) (call : ToolCall) (decision : PolicyDecision) :
    Prop where
  limited : decision.isRateLimited = true ↔
    ∃ policy ∈ config.policies, policy.concerns call = true ∧
      ∃ limit, policy.rateLimit = some limit ∧ limit.max ≤ (spent passed policy limit call).length
  within : decision.isRateLimited = false →
    match config.mode with
    | .autonomous => decision = .allow
    | .strict => decision.asksApproval = true
    | .supervised => decision.asksApproval = true ↔
        ∃ policy ∈ config.policies, policy.concerns call = true ∧ policy.requires = some approval

/-- An evaluator with the calls it has let through. -/
structure Watched where
  evaluator : PolicyEvaluator
  passed : List ToolCall

def Watched.start (config : SupervisionConfig) : Watched := ⟨.new config, []⟩

def Watched.next (s : Watched) (call : ToolCall) (decision : PolicyDecision) (evaluator : PolicyEvaluator) : Watched :=
  ⟨evaluator, if decision.isRateLimited then s.passed else s.passed ++ [call]⟩

def step (checks : Bool) (s : Watched) (call : ToolCall) : Option Watched :=
  (evaluate checks s.evaluator call).map fun (decision, evaluator) => s.next call decision evaluator

/-- The evaluator answers, and rightly. -/
def Answers (checks : Bool) (config : SupervisionConfig) (s : Watched) (call : ToolCall) : Prop :=
  ∃ decision evaluator, evaluate checks s.evaluator call = some (decision, evaluator) ∧
    Right config s.passed call decision

/-- Every limit that comes up at the call is exact. -/
def Orderly (s : Watched) (call : ToolCall) : Prop :=
  let times := s.evaluator.callTimes call.tool
  let all := limits s.evaluator.config.policies call.tool
  ∀ held ∈ comingUp times call.now all, Exact times call all held

/-! ## The recorded times and the calls -/

def timesOf (passed : List ToolCall) (tool : Text) : List Nat :=
  (passed.filter fun earlier => earlier.tool == tool).map ToolCall.now

theorem counted_timesOf (passed : List ToolCall) (tool : Text) (now : Nat) (limit : RateLimit) :
    counted (timesOf passed tool) now limit =
      (passed.filter fun earlier => earlier.tool == tool && limit.covers now earlier.now).map ToolCall.now := by
  rw [counted, timesOf, filter_map, filter_filter]
  congr 1
  apply filter_congr
  intro earlier _
  exact Bool.and_comm _ _

theorem spent_le (passed : List ToolCall) (policy : SupervisionPolicy) (limit : RateLimit) (call : ToolCall) :
    (spent passed policy limit call).length ≤ (counted (timesOf passed call.tool) call.now limit).length := by
  rw [counted_timesOf, length_map, spent]
  apply List.Sublist.length_le
  apply monotone_filter_right
  intro earlier mem
  simp only [and_eq_true] at mem ⊢
  exact ⟨mem.1.1, mem.2⟩

theorem spent_eq {passed : List ToolCall}
    (all : ∀ earlier ∈ passed, earlier.tool = call.tool → policy.concerns earlier = true) :
    (spent passed policy limit call).length = (counted (timesOf passed call.tool) call.now limit).length := by
  rw [counted_timesOf, length_map, spent]
  congr 1
  apply filter_congr
  intro earlier mem
  by_cases same : earlier.tool = call.tool
  · rw [all earlier mem same, Bool.and_true]
  · rw [beq_false_of_ne same, Bool.false_and, Bool.false_and]

theorem counted_later {later : Nat} (order : now ≤ later) (times : List Nat) (limit : RateLimit) :
    counted times later limit = counted (counted times now limit) later limit := by
  rw [counted, counted, counted, filter_filter]
  apply filter_congr
  intro t _
  cases covered : limit.covers later t with
  | false => rfl
  | true => rw [RateLimit.covers_of_later order covered, Bool.true_and]

/-- The recorded times of a tool count for a limit what the calls let through
    count, and every limit of the tool is about each of these calls. -/
structure Faithful (config : SupervisionConfig) (now : Nat) (s : Watched) : Prop where
  configured : s.evaluator.config = config
  counts : ∀ tool, ∀ held ∈ limits config.policies tool,
    counted (s.evaluator.callTimes tool) now held.2 = counted (timesOf s.passed tool) now held.2
  short : ∀ tool, ∀ held ∈ limits config.policies tool, (s.evaluator.callTimes tool).length ≤ held.2.max
  entity : ∀ call ∈ s.passed, ∀ held ∈ limits config.policies call.tool, held.1.matchesEntity call = true

variable {s : Watched}

theorem Faithful.later {later : Nat} (faithful : Faithful config now s) (order : now ≤ later) :
    Faithful config later s where
  configured := faithful.configured
  counts tool held mem := by
    rw [counted_later order, faithful.counts tool held mem, ← counted_later order]
  short := faithful.short
  entity := faithful.entity

theorem faithful_start (config : SupervisionConfig) : Faithful config 0 (.start config) where
  configured := rfl
  counts _ _ _ := rfl
  short _ _ _ := Nat.zero_le _
  entity _ mem := nomatch mem

/-! ## One call -/

theorem checkPolicies_asks (call : ToolCall) : ∀ policies : List SupervisionPolicy,
    (checkPolicies call policies).isRateLimited = false ∧
      ((checkPolicies call policies).asksApproval = true ↔
        ∃ policy ∈ policies, policy.concerns call = true ∧ policy.requires = some approval)
  | [] => ⟨rfl, by simp [checkPolicies, PolicyDecision.asksApproval]⟩
  | policy :: rest => by
    obtain ⟨unlimited, asks⟩ := checkPolicies_asks call rest
    rw [checkPolicies]
    simp only [mem_cons, exists_eq_or_imp]
    by_cases required : policy.concerns call = true ∧ policy.requires = some approval
    · have here : (policy.matchesAction call.tool && policy.matchesEntity call &&
          policy.requires == some approval) = true := by
        rw [and_eq_true, beq_iff_eq]
        exact required
      rw [if_pos here]
      exact ⟨rfl, fun _ => .inl required, fun _ => rfl⟩
    · have here : ¬(policy.matchesAction call.tool && policy.matchesEntity call &&
          policy.requires == some approval) = true := by
        rw [and_eq_true, beq_iff_eq]
        exact required
      rw [if_neg here]
      exact ⟨unlimited, asks.trans (or_iff_right required).symm⟩

theorem modeDecision_within (config : SupervisionConfig) (call : ToolCall) :
    (modeDecision config call).isRateLimited = false ∧
      match config.mode with
      | .autonomous => modeDecision config call = .allow
      | .strict => (modeDecision config call).asksApproval = true
      | .supervised => (modeDecision config call).asksApproval = true ↔
          ∃ policy ∈ config.policies, policy.concerns call = true ∧ policy.requires = some approval := by
  obtain ⟨unlimited, asks⟩ := checkPolicies_asks call config.policies
  unfold modeDecision
  cases config.mode with
  | autonomous => exact ⟨rfl, rfl⟩
  | supervised => exact ⟨unlimited, asks⟩
  | strict => exact ⟨rfl, rfl⟩

/-- The state behind a call that was limited. -/
theorem Faithful.limited {left : List Nat} (faithful : Faithful config call.now s)
    (kept : Kept (limits config.policies call.tool) call.now (s.evaluator.callTimes call.tool) left)
    (shorter : left.length ≤ (s.evaluator.callTimes call.tool).length) :
    Faithful config call.now ⟨s.evaluator.setTimes call.tool left, s.passed⟩ where
  configured := faithful.configured
  counts tool held mem := by
    dsimp only
    by_cases same : tool = call.tool
    · subst same
      rw [PolicyEvaluator.setTimes_self, kept.counts held mem, faithful.counts _ held mem]
    · rw [PolicyEvaluator.setTimes_of_ne _ _ same, faithful.counts tool held mem]
  short tool held mem := by
    dsimp only
    by_cases same : tool = call.tool
    · subst same
      rw [PolicyEvaluator.setTimes_self]
      exact shorter.trans (faithful.short _ held mem)
    · rw [PolicyEvaluator.setTimes_of_ne _ _ same]
      exact faithful.short tool held mem
  entity := faithful.entity

/-- The state behind a call that was let through. -/
theorem Faithful.passed {left : List Nat} (faithful : Faithful config call.now s)
    (kept : Kept (limits config.policies call.tool) call.now (s.evaluator.callTimes call.tool) left)
    (below : ∀ held ∈ limits config.policies call.tool, left.length < held.2.max)
    (entity : ∀ held ∈ limits config.policies call.tool, held.1.matchesEntity call = true) :
    Faithful config call.now ⟨s.evaluator.setTimes call.tool (left ++ [call.now]), s.passed ++ [call]⟩ where
  configured := faithful.configured
  counts tool held mem := by
    dsimp only
    by_cases same : tool = call.tool
    · subst same
      have recorded : timesOf (s.passed ++ [call]) call.tool = timesOf s.passed call.tool ++ [call.now] := by
        simp [timesOf]
      rw [PolicyEvaluator.setTimes_self, recorded, counted, counted, filter_append, filter_append]
      congr 1
      exact (kept.counts held mem).trans (faithful.counts _ held mem)
    · have unrecorded : timesOf (s.passed ++ [call]) tool = timesOf s.passed tool := by
        simp [timesOf, Ne.symm same]
      rw [PolicyEvaluator.setTimes_of_ne _ _ same, unrecorded, faithful.counts tool held mem]
  short tool held mem := by
    dsimp only
    by_cases same : tool = call.tool
    · subst same
      rw [PolicyEvaluator.setTimes_self, length_append, length_singleton]
      exact below held mem
    · rw [PolicyEvaluator.setTimes_of_ne _ _ same]
      exact faithful.short tool held mem
  entity earlier mem held inside := by
    obtain before | here := mem_append.mp mem
    · exact faithful.entity earlier before held inside
    · obtain rfl := mem_singleton.mp here
      exact entity held inside

/-- A call at which every limit that comes up is exact gets the right answer. -/
theorem answers_of_orderly (checks : Bool) (faithful : Faithful config call.now s) (orderly : Orderly s call) :
    ∃ decision evaluator, evaluate checks s.evaluator call = some (decision, evaluator) ∧
      Right config s.passed call decision ∧ Faithful config call.now (s.next call decision evaluator) := by
  obtain rfl := faithful.configured
  obtain ⟨refused, left, passed, kept, shorter, found⟩ := checkRateLimits_finds checks
    s.evaluator.config.policies ⟨List.Subset.refl _, fun _ _ => rfl⟩ (faithful.short call.tool)
    (fun held mem => ⟨comingUp_subset _ _ _ mem, orderly held mem⟩)
  have counts := faithful.counts call.tool
  cases refused with
  | some decision =>
    obtain ⟨⟨secs, rfl⟩, ⟨policy, limit⟩, up, reached⟩ := found
    have inside := comingUp_subset _ _ _ up
    obtain ⟨mem, action, given⟩ := mem_limits.mp inside
    refine ⟨.rateLimited secs, _, by rw [evaluate, passed]; rfl, ⟨?_, fun other => nomatch other⟩,
      faithful.limited kept shorter⟩
    refine ⟨fun _ => ⟨policy, mem, ?_, limit, given, ?_⟩, fun _ => rfl⟩
    · rw [SupervisionPolicy.concerns, action, (orderly _ up).entity, Bool.and_true]
    · -- the calls of the tool let through before were about the policy as well
      rw [spent_eq, ← counts _ inside]
      · exact reached
      · intro earlier before same
        rw [SupervisionPolicy.concerns, same, action, Bool.true_and]
        exact faithful.entity earlier before _ (same ▸ inside)
  | none =>
    have below : ∀ held ∈ limits s.evaluator.config.policies call.tool, left.length < held.2.max :=
      fun held mem => (found held mem).2
    have allUp := comingUp_eq_self fun held mem => (found held mem).1
    obtain ⟨unlimited, within⟩ := modeDecision_within s.evaluator.config call
    refine ⟨modeDecision s.evaluator.config call, _, by rw [evaluate, passed]; rfl, ⟨?_, fun _ => within⟩, ?_⟩
    · rw [unlimited]
      refine ⟨(fun other => nomatch other), ?_⟩
      rintro ⟨policy, mem, concerned, limit, given, reached⟩
      rw [SupervisionPolicy.concerns, and_eq_true] at concerned
      have inside := mem_limits.mpr ⟨mem, concerned.1, given⟩
      have below : (counted (s.evaluator.callTimes call.tool) call.now limit).length < limit.max :=
        (found (policy, limit) inside).1
      have count : counted (s.evaluator.callTimes call.tool) call.now limit =
          counted (timesOf s.passed call.tool) call.now limit := counts (policy, limit) inside
      rw [count] at below
      exact absurd (reached.trans (spent_le s.passed policy limit call)) (Nat.not_le_of_lt below)
    · rw [Watched.next, unlimited]
      exact faithful.passed kept below fun held mem =>
        (orderly held (by rw [allUp]; exact mem)).entity

/-! ## Runs -/

/-- In a run of calls at nondecreasing times, in which every limit that comes up is
    exact, the evaluator never panics and every answer is right. -/
theorem evaluate_run (checks : Bool) (config : SupervisionConfig) {calls : List ToolCall}
    (chronological : calls.Pairwise fun earlier later => earlier.now ≤ later.now)
    (orderly : Runs.Along (step checks) Orderly (.start config) calls) :
    Runs.Along (step checks) (Answers checks config) (.start config) calls := by
  have along : ∀ (calls : List ToolCall) {now : Nat} {s : Watched}, Faithful config now s →
      (∀ call ∈ calls, now ≤ call.now) → (calls.Pairwise fun earlier later => earlier.now ≤ later.now) →
      Runs.Along (step checks) Orderly s calls → Runs.Along (step checks) (Answers checks config) s calls := by
    intro calls
    induction calls with
    | nil => exact fun _ _ _ _ => trivial
    | cons call rest ih =>
      intro now s faithful behind chronological orderly
      obtain ⟨order, chronological⟩ := List.pairwise_cons.mp chronological
      have current := faithful.later (behind call List.mem_cons_self)
      obtain ⟨decision, evaluator, evaluated, right, next⟩ := answers_of_orderly checks current orderly.1
      have stepped : step checks s call = some (s.next call decision evaluator) := by rw [step, evaluated]; rfl
      exact .cons ⟨decision, evaluator, evaluated, right⟩ stepped
        (ih next order chronological (orderly.2 _ stepped))
  exact along calls (faithful_start config) (fun _ _ => Nat.zero_le _) chronological orderly

/-- Limits that are positive, about all entities and of one window are exact in
    every run. -/
def Uniform (config : SupervisionConfig) (seconds : Nat) : Prop :=
  seconds < 2 ^ 64 ∧ ∀ policy ∈ config.policies, ∀ limit ∈ policy.rateLimit,
    policy.entity = none ∧ 0 < limit.max ∧ windowSeconds limit.window = seconds

theorem evaluate_config {evaluator next : PolicyEvaluator} {decision : PolicyDecision}
    (evaluated : evaluate checks evaluator call = some (decision, next)) :
    next.config = evaluator.config := by
  obtain ⟨⟨refused, times⟩, -, evaluated⟩ := Option.bind_eq_some_iff.mp evaluated
  cases refused <;> cases evaluated <;> rfl

theorem orderly_uniform {seconds : Nat} (uniform : Uniform config seconds) (calls : List ToolCall) :
    Runs.Along (step checks) Orderly (.start config) calls := by
  have configured {s next : Watched} {call : ToolCall} (same : s.evaluator.config = config)
      (stepped : step checks s call = some next) : next.evaluator.config = config := by
    obtain ⟨⟨decision, evaluator⟩, evaluated, rfl⟩ := Option.map_eq_some_iff.mp stepped
    exact (evaluate_config evaluated).trans same
  have met {s : Watched} {call : ToolCall} (same : s.evaluator.config = config) : Orderly s call := by
    subst same
    rintro ⟨policy, limit⟩ up
    have known {policy : SupervisionPolicy} {limit : RateLimit}
        (mem : (policy, limit) ∈ limits s.evaluator.config.policies call.tool) :
        policy.entity = none ∧ 0 < limit.max ∧ windowSeconds limit.window = seconds := by
      obtain ⟨inside, -, given⟩ := mem_limits.mp mem
      exact uniform.2 policy inside limit given
    obtain ⟨general, positive, window⟩ := known (comingUp_subset _ _ _ up)
    refine ⟨positive, lt_of_eq_of_lt window uniform.1, by rw [SupervisionPolicy.matchesEntity, general]; rfl, ?_⟩
    -- what has left one window has left all of them
    rintro t _ gone ⟨policy', limit'⟩ mem
    have := (known mem).2.2
    rw [RateLimit.covers] at gone ⊢
    rwa [this, ← window]
  exact Runs.Along.of_invariant configured met rfl

/-- Two changes an hour, changes of orders with approval. -/
def careful : SupervisionConfig where
  mode := .supervised
  policies :=
    [{ action := "mutate", rateLimit := some ⟨2, "1h", by decide⟩ },
      { action := "mutate", entity := some "orders", requires := some approval }]

theorem evaluate_run_careful :
    Runs.Along (step true) (Answers true careful) (.start careful)
      [⟨"mutate_data".toList, .null, 0⟩, ⟨"query_data".toList, .null, 1⟩, ⟨"mutate_data".toList, .null, 5⟩,
        ⟨"mutate_data".toList, .null, 7⟩] := by
  apply evaluate_run true careful (by simp)
  have uniform : Uniform careful 3600 := by
    refine ⟨by decide, fun policy member limit given => ?_⟩
    obtain rfl | rfl := List.mem_pair.mp member
    · cases given
      exact ⟨rfl, by decide, by decide⟩
    · cases given
  exact orderly_uniform uniform _

/-- Five calls a minute and two an hour. -/
def bursts : SupervisionConfig where
  mode := .autonomous
  policies :=
    [{ action := "*", rateLimit := some ⟨5, "1m", by decide⟩ },
      { action := "*", rateLimit := some ⟨2, "1h", by decide⟩ }]

/-- The limit by the minute forgets the calls that the limit by the hour counts, so
    a third call within the hour is let through. -/
theorem evaluate_forgets :
    ¬Runs.Along (step false) (Answers false bursts) (.start bursts)
      [⟨"browser".toList, .null, 0⟩, ⟨"browser".toList, .null, 60000000000⟩,
        ⟨"browser".toList, .null, 120000000000⟩] := by
  intro along
  obtain ⟨decision, evaluator, evaluated, right⟩ := ((along.2 _ rfl).2 _ rfl).1
  cases evaluated
  -- the third call is allowed, against the second limit
  have limited := right.limited.mpr
    ⟨_, List.mem_cons_of_mem _ List.mem_cons_self, by decide, _, rfl, by decide⟩
  cases limited

/-- One change of orders an hour. -/
def ordersOnly : SupervisionConfig where
  mode := .autonomous
  policies :=
    [{ action := "mutate", entity := some "orders", rateLimit := some ⟨1, "1h", by decide⟩ }]

/-- A limit on one entity counts the calls on the others and stops them. -/
example :
    ¬Runs.Along (step false) (Answers false ordersOnly) (.start ordersOnly)
      [⟨"mutate_data", .obj [("entity", .str "users")], 0⟩,
        ⟨"mutate_data", .obj [("entity", .str "users")], 1⟩] := by
  intro along
  obtain ⟨decision, evaluator, evaluated, right⟩ := (along.2 _ rfl).1
  cases evaluated
  obtain ⟨policy, member, concerned, -⟩ := right.limited.mp rfl
  obtain rfl := mem_singleton.mp member
  exact absurd concerned (by decide)

end RootCx.Agents
