/-!
# Open conditionals

Every open conditional is in an arm that runs or in one that does not. Commands are executed if all
of these arms run.
-/

namespace CoinScript

/-- Whether the current arm runs, for every open conditional, the innermost first, and how many of
these arms do not run. The number is kept along, so that the arms need not be looked through. -/
structure Branches where
  arms : List Bool
  stopped : Nat
  stopped_eq : stopped = arms.count false
  deriving DecidableEq, Repr

namespace Branches

-- ---------------------------------------------------------------------------
-- Operations
-- ---------------------------------------------------------------------------

def ofList (arms : List Bool) : Branches := ⟨arms, arms.count false, rfl⟩

/-- No conditional is open. -/
def closed : Branches := ofList []

def isEmpty (branches : Branches) : Bool := branches.arms.isEmpty

/-- Whether all arms run. -/
def isRunning (branches : Branches) : Bool := branches.stopped == 0

/-- Opens a conditional within all others. -/
def enter (runs : Bool) (branches : Branches) : Branches :=
  match runs with
  | true => ⟨true :: branches.arms, branches.stopped, by simp [branches.stopped_eq]⟩
  | false => ⟨false :: branches.arms, branches.stopped + 1, by simp [branches.stopped_eq]⟩

/-- Goes to the other arm of the innermost conditional. -/
def flip? : Branches → Option Branches
  | ⟨[], _, _⟩ => none
  | ⟨true :: rest, stopped, h⟩ => some ⟨false :: rest, stopped + 1, by simp [h]⟩
  | ⟨false :: rest, stopped, h⟩ => some ⟨true :: rest, stopped - 1, by simp [h]⟩

/-- Closes the innermost conditional. -/
def leave? : Branches → Option Branches
  | ⟨[], _, _⟩ => none
  | ⟨true :: rest, stopped, h⟩ => some ⟨rest, stopped, by simp [h]⟩
  | ⟨false :: rest, stopped, h⟩ => some ⟨rest, stopped - 1, by simp [h]⟩

-- ---------------------------------------------------------------------------
-- Operations on the list of arms
-- ---------------------------------------------------------------------------

/-- The arms are all there is. -/
@[ext] theorem ext {b c : Branches} (h : b.arms = c.arms) : b = c := by
  obtain ⟨arms, stopped, hs⟩ := b
  obtain ⟨arms', stopped', hs'⟩ := c
  cases h
  subst hs hs'
  rfl

@[simp] theorem arms_ofList (arms : List Bool) : (ofList arms).arms = arms := rfl

@[simp] theorem ofList_arms (branches : Branches) : ofList branches.arms = branches := ext rfl

theorem isRunning_eq (branches : Branches) : branches.isRunning = branches.arms.all id := by
  rw [isRunning, branches.stopped_eq]
  induction branches.arms with
  | nil => rfl
  | cons arm rest ih => cases arm <;> simp_all

/-- If no conditional is open, all arms run. -/
theorem isRunning_of_isEmpty {branches : Branches} (h : branches.isEmpty) : branches.isRunning := by
  rw [isRunning_eq, List.isEmpty_iff.1 h]
  rfl

@[simp] theorem enter_eq (runs : Bool) (branches : Branches) :
    branches.enter runs = ofList (runs :: branches.arms) := by
  cases runs <;> exact ext rfl

@[simp] theorem flip?_ofList_nil : (ofList []).flip? = none := rfl

@[simp] theorem flip?_ofList_cons (arm : Bool) (rest : List Bool) :
    (ofList (arm :: rest)).flip? = some (ofList ((!arm) :: rest)) := by
  cases arm <;> exact congrArg some (ext rfl)

@[simp] theorem leave?_ofList_nil : (ofList []).leave? = none := rfl

@[simp] theorem leave?_ofList_cons (arm : Bool) (rest : List Bool) :
    (ofList (arm :: rest)).leave? = some (ofList rest) := by
  cases arm <;> exact congrArg some (ext rfl)

end Branches

end CoinScript
