import Mathlib.Data.Finset.Card
import HeapScan.Library.TwosComplement
import HeapScan.Tagging.Referential

/-!
# The tag counter in 32 bits

`lastTag` is an `int`, and every numbering moves it on.  The tags it yields are those of
an unbounded counter modulo `2 ^ 32`: one of them is 0, and after that they come again,
whether or not the entities that have them have been freed.
-/

namespace HeapScan

open Transition TwosComplement

/-- The counter, the tags of the entities, and the entities that have been freed. -/
structure TagCounter where
  lastTag : ℤ
  tag : Entity → ℤ
  freed : List Entity

/--
A class in a class pass, the referent or the referrer of a callback with the class tag
that the JVM passes for it, a call of `setAndGetTag`, or the end of an entity.
-/
inductive Numbering where
  | meetClass (cls : Entity)
  | report (object : Entity) (classTag : ℤ)
  | setAndGetTag (object : Entity)
  | free (entity : Entity)
deriving DecidableEq

namespace Numbering

def entity : Numbering → Entity
  | meetClass cls => cls
  | report object _ => object
  | setAndGetTag object => object
  | free entity => entity

def frees : Numbering → List Entity
  | free entity => [entity]
  | _ => []

def tracked : Numbering → Option Entity
  | setAndGetTag object => some object
  | _ => none

/-- The step is tracking or the end of an entity. -/
def Tracks : Numbering → Prop
  | setAndGetTag _ | free _ => True
  | _ => False

end Numbering

namespace TagCounter

def initial : TagCounter where
  lastTag := 1
  tag _ := 0
  freed := []

/-- `SetTag`, or the assignment through `tag_ptr`. -/
def setTag (counter : TagCounter) (entity : Entity) (tag : ℤ) : TagCounter :=
  { counter with tag := Function.update counter.tag entity tag }

section Operations

variable (increment : ℤ → ℤ) (counter : TagCounter)

/-- One round of the loop of `checkAndTagClasses`. -/
def meetClass (cls : Entity) : TagCounter :=
  if counter.tag cls = 0 then
    { counter.setTag cls counter.lastTag with lastTag := increment counter.lastTag }
  else counter

/-- What the callback does for its referent, and again for its referrer. -/
def tagReferenced (object : Entity) (classTag : ℤ) : TagCounter :=
  if counter.tag object = 0 ∧ classTag ≠ 0 then
    { counter.setTag object counter.lastTag with lastTag := increment counter.lastTag }
  else counter

def setAndGetTag (object : Entity) : ℤ × Bool × TagCounter :=
  if counter.tag object ≠ 0 then (counter.tag object, false, counter)
  else
    let counter := { counter with lastTag := increment counter.lastTag }
    (counter.lastTag, true, counter.setTag object counter.lastTag)

def apply : Numbering → TagCounter
  | .meetClass cls => meetClass increment counter cls
  | .report object classTag => tagReferenced increment counter object classTag
  | .setAndGetTag object => (setAndGetTag increment counter object).2.2
  | .free entity => { counter with freed := entity :: counter.freed }

/-- A step of an entity that has not been freed. -/
def step (action : Numbering) : Option TagCounter :=
  if action.entity ∈ counter.freed then none else some (apply increment counter action)

/-- The tag that the step passes to `SetTag` or writes through `tag_ptr`. -/
def gives : Numbering → Option (Entity × ℤ)
  | .meetClass cls => if counter.tag cls = 0 then some (cls, counter.lastTag) else none
  | .report object classTag =>
      if counter.tag object = 0 ∧ classTag ≠ 0 then some (object, counter.lastTag) else none
  | .setAndGetTag object =>
      if counter.tag object ≠ 0 then none else some (object, increment counter.lastTag)
  | .free _ => none

end Operations

/-- The tag that the step gives is not 0, and no entity still alive has it. -/
def Usable (counter : TagCounter) (action : Numbering) : Prop :=
  ∀ entity tag, gives incrementInt counter action = some (entity, tag) →
    tag ≠ 0 ∧ ∀ other, other ∉ counter.freed → counter.tag other ≠ tag

/--
With the unbounded counter: the number that the step gives is no multiple of `2 ^ 32`, and
no entity still alive has a number from which it differs by a multiple of `2 ^ 32`.
-/
def Spread (counter : TagCounter) (action : Numbering) : Prop :=
  ∀ entity number, gives incrementExact counter action = some (entity, number) →
    ¬(2 ^ 32 : ℤ) ∣ number ∧ ∀ other, other ∉ counter.freed → counter.tag other ≠ 0 →
      ¬(2 ^ 32 : ℤ) ∣ counter.tag other - number

section Steps

variable {increment : ℤ → ℤ} {counter : TagCounter} {action : Numbering}

/-- A step sets the tag it gives and moves the counter on, or it numbers nothing. -/
theorem apply_eq (increment : ℤ → ℤ) (counter : TagCounter) (action : Numbering) :
    counter.apply increment action =
      match gives increment counter action with
      | some given =>
          { counter with
            lastTag := increment counter.lastTag
            tag := Function.update counter.tag given.1 given.2 }
      | none => { counter with freed := action.frees ++ counter.freed } := by
  cases action with
  | meetClass cls =>
      simp only [apply, meetClass, gives]
      split <;> rfl
  | report object classTag =>
      simp only [apply, tagReferenced, gives]
      split <;> rfl
  | setAndGetTag object =>
      simp only [apply, setAndGetTag, gives]
      split <;> rfl
  | free entity => rfl

theorem apply_of_gives {entity : Entity} {tag : ℤ}
    (given : gives increment counter action = some (entity, tag)) :
    counter.apply increment action =
      { counter with
        lastTag := increment counter.lastTag
        tag := Function.update counter.tag entity tag } := by
  rw [apply_eq, given]

theorem apply_freed (increment : ℤ → ℤ) (counter : TagCounter) (action : Numbering) :
    (counter.apply increment action).freed = action.frees ++ counter.freed := by
  cases action with
  | meetClass cls =>
      simp only [apply, meetClass]
      split <;> rfl
  | report object classTag =>
      simp only [apply, tagReferenced]
      split <;> rfl
  | setAndGetTag object =>
      simp only [apply, setAndGetTag]
      split <;> rfl
  | free entity => rfl

theorem step_eq_some {next : TagCounter} :
    step increment counter action = some next ↔
      action.entity ∉ counter.freed ∧ counter.apply increment action = next := by
  unfold step
  split <;> simp_all

end Steps

/-- Which entities have been freed does not depend on the tags. -/
theorem possible_iff {counter other : TagCounter} (same : counter.freed = other.freed)
    {increment otherIncrement : ℤ → ℤ} {actions : List Numbering} :
    runFrom (step otherIncrement) other actions ≠ none ↔
      runFrom (step increment) counter actions ≠ none := by
  induction actions generalizing counter other with
  | nil => simp
  | cons action actions ih =>
      have sameNext : (counter.apply increment action).freed =
          (other.apply otherIncrement action).freed := by
        rw [apply_freed, apply_freed, same]
      by_cases ended : action.entity ∈ counter.freed
      · simp [runFrom, step, ended, same ▸ ended]
      · simpa [runFrom, step, ended, same ▸ ended] using ih sameNext

section Agent

variable {state : AgentState} {freed : List Entity}

/-- The counter of the agent and the tags that it has given. -/
def ofAgent (state : AgentState) (freed : List Entity) : TagCounter :=
  { lastTag := state.lastTag, tag := state.tag, freed }

/-- What a step of the agent numbers, with the class tags as they are before the step. -/
def numberings (jvm : Jvm) (state : AgentState) : TagStep → List Numbering
  | .startMsgGrp => []
  | .flushMsgGrp => []
  | .meetClass cls => [.meetClass cls]
  | .reference reference =>
      .report reference.referent (state.tag (jvm.classOf reference.referent)) ::
        reference.referrer.toList.map fun object => .report object (state.tag (jvm.classOf object))
  | .track allocatedObj =>
      [.setAndGetTag (jvm.classOf allocatedObj), .setAndGetTag allocatedObj]

theorem ofAgent_congr {next : AgentState} (sameTags : next.tag = state.tag)
    (sameLast : next.lastTag = state.lastTag) : ofAgent next freed = ofAgent state freed := by
  rw [ofAgent, ofAgent, sameTags, sameLast]

theorem ofAgent_tagReferenced (object : Entity) (classTag : ℤ) :
    ofAgent (state.tagReferenced object classTag) freed =
      (ofAgent state freed).tagReferenced state.increment object classTag := by
  by_cases untagged : state.tag object = 0 ∧ classTag ≠ 0
  · have numbered := AgentState.tagReferenced_new untagged
    rw [ofAgent, numbered.1, numbered.2]
    simp [tagReferenced, ofAgent, untagged, setTag]
  · rw [AgentState.tagReferenced_old untagged]
    simp [tagReferenced, ofAgent, untagged]

theorem ofAgent_setAndGetTag (object : Entity) :
    ofAgent (state.setAndGetTag object).2.2 freed =
      ((ofAgent state freed).setAndGetTag state.increment object).2.2 := by
  by_cases untagged : state.tag object = 0
  · rw [AgentState.setAndGetTag_new untagged]
    simp [setAndGetTag, ofAgent, untagged, setTag]
  · rw [AgentState.setAndGetTag_old untagged]
    simp [setAndGetTag, ofAgent, untagged]

/-- The agent's counter and tags are those of the counter alone, for what the agent numbers. -/
theorem ofAgent_step (jvm : Jvm) (state : AgentState) (freed : List Entity) (step : TagStep) :
    ofAgent (state.applyTagStep jvm step) freed =
      (numberings jvm state step).foldl (apply state.increment) (ofAgent state freed) := by
  cases step with
  | startMsgGrp => rfl
  | flushMsgGrp => rfl
  | meetClass cls =>
      by_cases untagged : state.tag cls = 0
      · simp [AgentState.applyTagStep, AgentState.checkAndTagClasses, numberings, apply, meetClass,
          ofAgent, untagged, setTag]
      · simp [AgentState.applyTagStep, AgentState.checkAndTagClasses, numberings, apply, meetClass,
          ofAgent, untagged]
  | reference reference =>
      rcases AgentState.reportReference_tags jvm state reference with ⟨sameTags, sameLast, -⟩
      rw [AgentState.applyTagStep, ofAgent_congr sameTags sameLast, AgentState.tagBoth]
      cases isReferrer : reference.referrer with
      | none => simp [numberings, isReferrer, apply, ofAgent_tagReferenced]
      | some object => simp [numberings, isReferrer, apply, ofAgent_tagReferenced]
  | track allocatedObj =>
      rcases AgentState.trackObject_tags jvm state allocatedObj with
        ⟨middle, sameTags, sameLast, same, finalTags, finalLast, -⟩
      rw [AgentState.applyTagStep, ofAgent_congr finalTags finalLast, ofAgent_setAndGetTag,
        ofAgent_congr sameTags sameLast, ofAgent_setAndGetTag, same,
        AgentState.setAndGetTag_increment]
      rfl

/-- What a run of the agent numbers. -/
def runNumberings (jvm : Jvm) : AgentState → List TagStep → List Numbering
  | _, [] => []
  | state, step :: steps =>
      numberings jvm state step ++ runNumberings jvm (state.applyTagStep jvm step) steps

/-- A run of the agent is one of the counter alone, with the same increment. -/
theorem ofAgent_run (jvm : Jvm) (state : AgentState) (freed : List Entity)
    (steps : List TagStep) :
    ofAgent (steps.foldl (AgentState.applyTagStep jvm) state) freed =
      (runNumberings jvm state steps).foldl (apply state.increment) (ofAgent state freed) := by
  induction steps generalizing state with
  | nil => rfl
  | cons step steps ih =>
      rw [List.foldl_cons, ih, runNumberings, List.foldl_append, ofAgent_step,
        AgentState.applyTagStep_increment]

end Agent

/-- The counter in 32 bits beside the unbounded one, while no tag given has been 0. -/
structure Wraps (counter unbounded : TagCounter) : Prop where
  lastTag : counter.lastTag = wrap 32 unbounded.lastTag
  tag : ∀ entity, counter.tag entity = wrap 32 (unbounded.tag entity)
  tagged : ∀ entity, counter.tag entity = 0 ↔ unbounded.tag entity = 0
  freed : counter.freed = unbounded.freed

theorem wraps_initial : Wraps initial initial where
  lastTag := (wrap_of_inRange (by decide) (by decide)).symm
  tag _ := (wrap_zero 32).symm
  tagged _ := Iff.rfl
  freed := rfl

section Wraps

variable {counter unbounded : TagCounter} {action : Numbering}

/-- Both counters number the same entity, the one in 32 bits with the wrapped number. -/
theorem Wraps.gives (wraps : Wraps counter unbounded) (action : Numbering) :
    gives incrementInt counter action =
      (gives incrementExact unbounded action).map fun given => (given.1, wrap 32 given.2) := by
  cases action with
  | meetClass cls =>
      simp only [TagCounter.gives, wraps.tagged, wraps.lastTag]
      split <;> rfl
  | report object classTag =>
      simp only [TagCounter.gives, wraps.tagged, wraps.lastTag]
      split <;> rfl
  | setAndGetTag object =>
      simp only [TagCounter.gives, ne_eq, wraps.tagged, wraps.lastTag]
      split
      · rfl
      · simp [incrementInt, incrementExact]
  | free entity => rfl

/-- A tag is usable exactly where the unbounded number is spread from those in use. -/
theorem Wraps.usable_iff (wraps : Wraps counter unbounded) :
    counter.Usable action ↔ unbounded.Spread action := by
  unfold Usable Spread
  rw [wraps.gives action, ← wraps.freed]
  cases TagCounter.gives incrementExact unbounded action with
  | none => simp
  | some given =>
      rcases given with ⟨given, number⟩
      have same (other : Entity) (notZero : ¬(2 ^ 32 : ℤ) ∣ number) :
          wrap 32 (unbounded.tag other) ≠ wrap 32 number ↔
            (unbounded.tag other ≠ 0 → ¬(2 ^ 32 : ℤ) ∣ unbounded.tag other - number) := by
        rw [ne_eq, wrap_eq_iff]
        refine ⟨fun differs _ => differs, fun differs divides => ?_⟩
        refine differs (fun untagged => notZero ?_) divides
        rwa [untagged, Int.zero_sub, Int.dvd_neg] at divides
      simp only [Option.map_some, wraps.tag]
      constructor
      · rintro usable _ _ ⟨⟩
        have notZero := (usable _ _ rfl).1
        rw [ne_eq, wrap_eq_zero_iff] at notZero
        exact ⟨notZero, fun other alive => (same other notZero).1 ((usable _ _ rfl).2 other alive)⟩
      · rintro spread _ _ ⟨⟩
        have notZero := (spread _ _ rfl).1
        refine ⟨mt (wrap_eq_zero_iff 32 number).1 notZero, fun other alive => ?_⟩
        exact (same other notZero).2 ((spread _ _ rfl).2 other alive)

theorem Wraps.step (wraps : Wraps counter unbounded) (spread : unbounded.Spread action) :
    Wraps (counter.apply incrementInt action) (unbounded.apply incrementExact action) := by
  rw [apply_eq, apply_eq, wraps.gives action]
  cases isGiven : TagCounter.gives incrementExact unbounded action with
  | none => exact { wraps with freed := congrArg (action.frees ++ ·) wraps.freed }
  | some given =>
      have notZero := (spread given.1 given.2 isGiven).1
      refine
        { lastTag := by simp [incrementInt, incrementExact, wraps.lastTag]
          tag := fun entity => ?_
          tagged := fun entity => ?_
          freed := wraps.freed }
      · simp only [Option.map_some, Function.update_apply]
        split
        · rfl
        · exact wraps.tag entity
      · simp only [Option.map_some, Function.update_apply]
        split
        · rw [wrap_eq_zero_iff]
          exact ⟨fun zero => absurd zero notZero, fun zero => zero ▸ Int.dvd_zero _⟩
        · exact wraps.tagged entity

/-- All tags of a run are usable exactly where all numbers of the unbounded run are spread. -/
theorem Wraps.run_iff (wraps : Wraps counter unbounded) (actions : List Numbering) :
    StepsMeet (TagCounter.step incrementInt) Usable counter actions ↔
      StepsMeet (TagCounter.step incrementExact) Spread unbounded actions := by
  induction actions generalizing counter unbounded with
  | nil => exact Iff.rfl
  | cons action actions ih =>
      simp only [StepsMeet, wraps.usable_iff, step_eq_some, wraps.freed, and_imp,
        forall_apply_eq_imp_iff]
      refine and_congr_right fun spread => forall_congr' fun alive => ?_
      simpa using ih (wraps.step spread)

end Wraps

section Tracking

variable {counter : TagCounter} {seen : Finset Entity} {object : Entity}

/-- Tracking alone has numbered the entities that it has `seen` from 2 on. -/
structure Tracked (seen : Finset Entity) (counter : TagCounter) : Prop where
  lastTag : counter.lastTag = 1 + seen.card
  tagged : ∀ entity, counter.tag entity ≠ 0 ↔ entity ∈ seen
  bounds : ∀ entity ∈ seen, 2 ≤ counter.tag entity ∧ counter.tag entity ≤ counter.lastTag

theorem tracked_initial : Tracked ∅ initial where
  lastTag := rfl
  tagged _ := by simp [initial]
  bounds _ listed := absurd listed (Finset.notMem_empty _)

theorem Tracked.untagged_iff (tracked : Tracked seen counter) :
    counter.tag object = 0 ↔ object ∉ seen := by
  rw [← tracked.tagged, not_not]

/-- Tracking what has been seen leaves the counter as it is. -/
theorem Tracked.apply_seen (tracked : Tracked seen counter) (listed : object ∈ seen)
    (increment : ℤ → ℤ) : counter.apply increment (.setAndGetTag object) = counter := by
  have tagged := (tracked.tagged object).2 listed
  simp [apply, setAndGetTag, tagged]

theorem Tracked.gives_new (tracked : Tracked seen counter) (new : object ∉ seen) :
    gives incrementExact counter (.setAndGetTag object) = some (object, counter.lastTag + 1) := by
  simp [gives, tracked.untagged_iff.2 new, incrementExact]

theorem Tracked.apply_new (tracked : Tracked seen counter) (new : object ∉ seen) :
    Tracked (insert object seen) (counter.apply incrementExact (.setAndGetTag object)) := by
  have last := tracked.lastTag
  rw [apply_of_gives (tracked.gives_new new)]
  refine
    { lastTag := ?_
      tagged := fun entity => ?_
      bounds := fun entity listed => ?_ }
  · simp only [incrementExact, Finset.card_insert_of_notMem new]
    omega
  · rw [Finset.mem_insert]
    by_cases same : entity = object
    · simp only [same, Function.update_self, true_or, iff_true]
      omega
    · simp only [same, Function.update_of_ne same, tracked.tagged, false_or]
  · simp only [incrementExact]
    by_cases same : entity = object
    · simp only [same, Function.update_self]
      omega
    · simp only [Function.update_of_ne same]
      have bounds := tracked.bounds entity (Finset.mem_of_mem_insert_of_ne listed same)
      omega

/-- The number after the `2 ^ 32 - 2` first ones is the first that is no tag. -/
theorem Tracked.spread_iff (tracked : Tracked seen counter) (few : seen.card < 2 ^ 32 - 1) :
    counter.Spread (.setAndGetTag object) ↔ (insert object seen).card < 2 ^ 32 - 1 := by
  have last := tracked.lastTag
  by_cases new : object ∈ seen
  · have tagged := (tracked.tagged object).2 new
    rw [Finset.insert_eq_of_mem new]
    simp only [few, iff_true]
    simp [Spread, gives, tagged]
  · have given := tracked.gives_new new
    rw [Finset.card_insert_of_notMem new]
    constructor
    · intro spread
      have notZero := (spread object _ given).1
      by_contra many
      exact notZero ⟨1, by omega⟩
    · intro fits entity number isGiven
      rw [given, Option.some.injEq, Prod.mk.injEq] at isGiven
      rcases isGiven with ⟨rfl, rfl⟩
      refine ⟨by omega, fun other _ tagged => ?_⟩
      have bounds := tracked.bounds other ((tracked.tagged other).1 tagged)
      omega

/-- Of tracking alone the tags are usable for up to `2 ^ 32 - 2` classes and objects. -/
theorem Tracked.run_iff (tracked : Tracked seen counter) (few : seen.card < 2 ^ 32 - 1)
    {actions : List Numbering} (tracks : ∀ action ∈ actions, action.Tracks)
    {final : TagCounter} (run : runFrom (step incrementExact) counter actions = some final) :
    StepsMeet (step incrementExact) Spread counter actions ↔
      (seen ∪ (actions.filterMap Numbering.tracked).toFinset).card < 2 ^ 32 - 1 := by
  induction actions generalizing seen counter with
  | nil => simpa [StepsMeet] using few
  | cons action actions ih =>
      rcases List.forall_mem_cons.1 tracks with ⟨first, later⟩
      rcases runFrom_cons_eq_some.1 run with ⟨next, stepped, rest⟩
      have isNext := (step_eq_some.1 stepped).2
      simp only [StepsMeet, stepped, Option.some.injEq, forall_eq']
      cases action with
      | meetClass cls => exact first.elim
      | report object classTag => exact first.elim
      | free entity =>
          have kept : Tracked seen next := by
            rw [← isNext]
            exact { tracked with }
          have spread : counter.Spread (.free entity) := by simp [Spread, gives]
          have same : (Numbering.free entity :: actions).filterMap Numbering.tracked =
              actions.filterMap Numbering.tracked := rfl
          rw [same, ← ih kept few later rest]
          exact and_iff_right spread
      | setAndGetTag object =>
          have union : seen ∪ ((Numbering.setAndGetTag object :: actions).filterMap
                Numbering.tracked).toFinset =
              insert object seen ∪ (actions.filterMap Numbering.tracked).toFinset := by
            simp [Numbering.tracked]
          have kept : Tracked (insert object seen) next := by
            rw [← isNext]
            by_cases listed : object ∈ seen
            · rwa [tracked.apply_seen listed, Finset.insert_eq_of_mem listed]
            · exact tracked.apply_new listed
          rw [union, tracked.spread_iff few]
          constructor
          · rintro ⟨fits, meets⟩
            exact (ih kept fits later rest).1 meets
          · intro fits
            have fitsNow := Nat.lt_of_le_of_lt (Finset.card_le_card Finset.subset_union_left) fits
            exact ⟨fitsNow, (ih kept fitsNow later rest).2 fits⟩

end Tracking

/--
The tags of a run are all usable exactly where the unbounded counter gives no multiple of
`2 ^ 32` and nothing that an entity still alive has up to such a multiple; of tracking
alone, exactly where at most `2 ^ 32 - 2` classes and objects are tracked.
-/
theorem tagsUsable_iff (actions : List Numbering) :
    (StepsMeet (step incrementInt) Usable initial actions ↔
        StepsMeet (step incrementExact) Spread initial actions) ∧
      ((∀ action ∈ actions, action.Tracks) → runFrom (step incrementInt) initial actions ≠ none →
        (StepsMeet (step incrementInt) Usable initial actions ↔
          (actions.filterMap Numbering.tracked).toFinset.card < 2 ^ 32 - 1)) := by
  have usable := wraps_initial.run_iff actions
  refine ⟨usable, fun tracks possible => ?_⟩
  rw [← possible_iff wraps_initial.freed] at possible
  rcases Option.ne_none_iff_exists'.1 possible with ⟨final, run⟩
  rw [usable, tracked_initial.run_iff (by simp) tracks run, Finset.empty_union]

/-- Two objects of one class are tracked, the first one freed before the second. -/
theorem tagsUsable_iff_two :
    let actions : List Numbering :=
      [.setAndGetTag 0, .setAndGetTag 1, .free 1, .setAndGetTag 0, .setAndGetTag 2]
    StepsMeet (step incrementInt) Usable initial actions := by
  intro actions
  have tracks : ∀ action ∈ actions, action.Tracks := by simp [actions, Numbering.Tracks]
  have possible : runFrom (step incrementInt) initial actions ≠ none :=
    Option.ne_none_iff_isSome.mpr (by decide)
  exact ((tagsUsable_iff actions).2 tracks possible).mpr (by decide)

section Allocations

/-- The class is tracked, and then one object after another that is freed at once. -/
def allocations (count : ℕ) : List Numbering :=
  .setAndGetTag 0 ::
    (List.range count).flatMap fun index => [.setAndGetTag (index + 1), .free (index + 1)]

def allocated (count : ℕ) : TagCounter where
  lastTag := wrap 32 (count + 2)
  tag entity := if entity ≤ count then wrap 32 (entity + 2) else 0
  freed := ((List.range count).map (· + 1)).reverse

theorem allocated_tag_new (count : ℕ) : (allocated count).tag (count + 1) = 0 := by
  simp [allocated]

theorem allocated_alive (count : ℕ) : count + 1 ∉ (allocated count).freed := by
  simp [allocated]

/-- The next object is tracked and freed. -/
theorem allocated_succ (count : ℕ) :
    runFrom (step incrementInt) (allocated count) [.setAndGetTag (count + 1), .free (count + 1)] =
      some (allocated (count + 1)) := by
  have tracked : step incrementInt (allocated count) (.setAndGetTag (count + 1)) =
      some { allocated (count + 1) with freed := (allocated count).freed } := by
    rw [step_eq_some]
    refine ⟨allocated_alive count, ?_⟩
    have moved : incrementInt (allocated count).lastTag = wrap 32 (count + 1 + 2) := by
      simp only [incrementInt, allocated, wrap_wrap_add, Int.add_right_comm]
    have given : gives incrementInt (allocated count) (.setAndGetTag (count + 1)) =
        some (count + 1, wrap 32 (count + 1 + 2)) := by
      simp [gives, allocated_tag_new, moved]
    rw [apply_of_gives given, moved]
    simp only [TagCounter.mk.injEq, and_true]
    refine ⟨by simp [allocated], ?_⟩
    funext entity
    rcases Nat.lt_trichotomy entity (count + 1) with below | rfl | above
    · have before := Nat.le_of_lt_succ below
      have after := Nat.le_of_lt below
      simp [allocated, Function.update_of_ne (Nat.ne_of_lt below), before, after]
    · simp [allocated]
    · have after := Nat.not_le_of_gt above
      have before := mt Nat.le_succ_of_le after
      simp [allocated, Function.update_of_ne (Nat.ne_of_gt above), before, after]
  have freed : step incrementInt { allocated (count + 1) with freed := (allocated count).freed }
      (.free (count + 1)) = some (allocated (count + 1)) := by
    rw [step_eq_some]
    refine ⟨allocated_alive count, ?_⟩
    simp [apply, allocated, List.range_succ]
  exact runFrom_cons_eq_some.2 ⟨_, tracked, runFrom_cons_eq_some.2 ⟨_, freed, rfl⟩⟩

theorem allocations_succ (count : ℕ) :
    allocations (count + 1) =
      allocations count ++ [.setAndGetTag (count + 1), .free (count + 1)] := by
  simp [allocations, List.range_succ]

theorem run_allocations (count : ℕ) :
    runFrom (step incrementInt) initial (allocations count) = some (allocated count) := by
  induction count with
  | zero =>
      refine runFrom_cons_eq_some.2 ⟨allocated 0, ?_, rfl⟩
      rw [step_eq_some]
      refine ⟨List.not_mem_nil, ?_⟩
      rw [apply_eq]
      simp only [gives, initial, ne_eq, not_true_eq_false, if_false, TagCounter.mk.injEq,
        List.range_zero, List.map_nil, List.reverse_nil, allocated, and_true]
      refine ⟨rfl, ?_⟩
      funext entity
      rcases Nat.eq_zero_or_pos entity with rfl | positive
      · rfl
      · rw [Function.update_of_ne (Nat.ne_of_gt positive), if_neg (Nat.not_le_of_gt positive)]
  | succ count ih =>
      rw [allocations_succ, runFrom_append, ih]
      exact allocated_succ count

/-- The object after `2 ^ 32 - 3` others is given 0, and is taken for untagged again. -/
theorem allocated_given_zero :
    let count : ℕ := 2 ^ 32 - 3
    runFrom (step incrementInt) initial (allocations count) = some (allocated count) ∧
      gives incrementInt (allocated count) (.setAndGetTag (count + 1)) = some (count + 1, 0) ∧
      ¬StepsMeet (step incrementInt) Usable initial (allocations (count + 1)) ∧
      ∃ next, step incrementInt (allocated count) (.setAndGetTag (count + 1)) = some next ∧
        (next.setAndGetTag incrementInt (count + 1)).2.1 = true := by
  intro count
  have given : gives incrementInt (allocated count) (.setAndGetTag (count + 1)) =
      some (count + 1, 0) := by
    have moved : incrementInt (allocated count).lastTag = 0 := by
      simp only [count, incrementInt, allocated, wrap_wrap_add, wrap_eq_zero_iff]
      decide
    simp [gives, allocated_tag_new, moved]
  refine ⟨run_allocations count, given, fun meets => ?_, ?_⟩
  · rw [allocations_succ] at meets
    exact ((meets.after (run_allocations count)).1 _ _ given).1 rfl
  · refine ⟨_, step_eq_some.2 ⟨allocated_alive count, rfl⟩, ?_⟩
    rw [apply_of_gives given]
    simp [setAndGetTag]

end Allocations

end TagCounter

end HeapScan
