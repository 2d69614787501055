import CoinScript.Log

/-!
# Bounded stacks

A list of at most `capacity` elements, top first, that can also be added to at the bottom. Positions
count from one at the top. An operation that fails leaves the stack as it was.
-/

namespace CoinScript

/-- Elements, top first, how many there may be and how many there are. The number is kept along, so
that it need not be counted again and again. -/
structure Stack (α : Type) where
  elements : List α
  capacity : Nat
  length : Nat
  length_eq : length = elements.length
  deriving DecidableEq, Repr

namespace Stack

/-- Why a stack operation fails. -/
inductive Error where
  | full (capacity : Nat)
  | empty
  | notFound (index len : Nat)
  deriving DecidableEq, Repr

def Error.message : Error → String
  | .full capacity => "stack is full (" ++ toString capacity ++ " elements)"
  | .empty => "stack is empty"
  | .notFound index len =>
    "tried to retrieve element " ++ toString index ++ " from a stack with " ++ toString len ++ " elements"

variable {α : Type}

-- ---------------------------------------------------------------------------
-- Operations
-- ---------------------------------------------------------------------------

/-- The stack with the given elements. -/
def ofList (elements : List α) (capacity : Nat) : Stack α := ⟨elements, capacity, elements.length, rfl⟩

/-- The stack without elements. -/
def new (capacity : Nat) : Stack α := ofList [] capacity

/-- Exchanges all elements for others, of which there are `length`. -/
def refill (s : Stack α) (elements : List α) (length : Nat) (h : length = elements.length) : Stack α :=
  ⟨elements, s.capacity, length, h⟩

def isEmpty (s : Stack α) : Bool := s.elements.isEmpty

/-- Puts an element on top. -/
def push (a : α) (s : Stack α) : Except Error (Stack α) :=
  if s.length < s.capacity then
    .ok (s.refill (a :: s.elements) (s.length + 1) (by rw [List.length_cons, s.length_eq]))
  else .error (.full s.capacity)

/-- Puts an element at the bottom, below all others. -/
def putLast (a : α) (s : Stack α) : Except Error (Stack α) :=
  if s.length < s.capacity then
    .ok (s.refill (s.elements ++ [a]) (s.length + 1)
      (by rw [List.length_append, List.length_singleton, s.length_eq]))
  else .error (.full s.capacity)

def pop : Stack α → Except Error (α × Stack α)
  | ⟨[], _, _, _⟩ => .error .empty
  | ⟨a :: rest, capacity, length, h⟩ =>
    .ok (a, ⟨rest, capacity, length - 1, by rw [h, List.length_cons, Nat.add_sub_cancel]⟩)

def peek (s : Stack α) : Except Error α :=
  match s.elements with
  | [] => .error .empty
  | a :: _ => .ok a

/-- The element at a position, if there is one. -/
def nth? (n : Nat) (s : Stack α) : Option α :=
  match n with
  | 0 => none
  | i + 1 => s.elements[i]?

/-- The failure to find a position. -/
def notFound (n : Nat) (s : Stack α) : Error := .notFound n s.length

def peekNth (n : Nat) (s : Stack α) : Except Error α :=
  match s.nth? n with
  | none => .error (s.notFound n)
  | some a => .ok a

/-- Replaces the element at a position by its image. -/
def modifyNth (n : Nat) (f : α → α) (s : Stack α) : Except Error (Stack α) :=
  match s.nth? n with
  | none => .error (s.notFound n)
  | some a =>
    .ok (s.refill (s.elements.set (n - 1) (f a)) s.length (by rw [List.length_set, s.length_eq]))

/-- The position of the topmost element equal to `a`. -/
def search [BEq α] (a : α) (s : Stack α) : Option Nat :=
  (s.elements.findIdx? (· == a)).map (· + 1)

/-- Takes out the topmost element equal to `a`; the stack stays as it is if there is none. -/
def remove [BEq α] (a : α) (s : Stack α) : Stack α := ofList (s.elements.erase a) s.capacity

/-- Takes out the element at a position. -/
def removeNth (n : Nat) (s : Stack α) : Except Error (α × Stack α) :=
  match s.nth? n with
  | none => .error (s.notFound n)
  | some a =>
    .ok (a, s.refill (s.elements.eraseIdx (n - 1)) (if n - 1 < s.length then s.length - 1 else s.length)
      (by rw [List.length_eraseIdx, s.length_eq]))

/-- Puts an element in so that it ends up at a position, which may be one past the bottom. -/
def insertNth (n : Nat) (a : α) (s : Stack α) : Except Error (Stack α) :=
  if s.capacity ≤ s.length then .error (.full s.capacity)
  else if n = 0 ∨ s.length + 1 < n then .error (s.notFound n)
  else
    .ok (s.refill (s.elements.insertIdx (n - 1) a) (if n - 1 ≤ s.length then s.length + 1 else s.length)
      (by rw [List.length_insertIdx, s.length_eq]))

/-- Exchanges the elements at two positions. -/
def swap (m n : Nat) (s : Stack α) : Except Error (Stack α) :=
  match s.nth? m, s.nth? n with
  | none, _ => .error (s.notFound m)
  | some _, none => .error (s.notFound n)
  | some a, some b =>
    .ok (s.refill ((s.elements.set (m - 1) b).set (n - 1) a) s.length
      (by rw [List.length_set, List.length_set, s.length_eq]))

def clear (s : Stack α) : Stack α := ofList [] s.capacity

/-- The stack that results from pushing elements one after the other, the last one on top. -/
def pushAll (s : Stack α) : List α → Except Error (Stack α)
  | [] => .ok s
  | a :: rest => do (← s.push a).pushAll rest

-- ---------------------------------------------------------------------------
-- Operations on the list of elements
-- ---------------------------------------------------------------------------

/-- A stack is its elements and its capacity. -/
@[ext] theorem ext {s t : Stack α} (h : s.elements = t.elements) (h' : s.capacity = t.capacity) :
    s = t := by
  obtain ⟨elements, capacity, length, hl⟩ := s
  obtain ⟨elements', capacity', length', hl'⟩ := t
  cases h
  cases h'
  subst hl hl'
  rfl

@[simp] theorem elements_ofList (elements : List α) (capacity : Nat) :
    (ofList elements capacity).elements = elements := rfl

@[simp] theorem capacity_ofList (elements : List α) (capacity : Nat) :
    (ofList elements capacity).capacity = capacity := rfl

@[simp] theorem length_ofList (elements : List α) (capacity : Nat) :
    (ofList elements capacity).length = elements.length := rfl

@[simp] theorem ofList_elements (s : Stack α) : ofList s.elements s.capacity = s := ext rfl rfl

@[simp] theorem refill_eq (s : Stack α) (elements : List α) (length : Nat)
    (h : length = elements.length) : s.refill elements length h = ofList elements s.capacity :=
  ext rfl rfl

theorem push_eq (a : α) (s : Stack α) :
    s.push a = if s.length < s.capacity then .ok (ofList (a :: s.elements) s.capacity)
      else .error (.full s.capacity) := by
  simp only [push, refill_eq]

theorem pop_of_nil {s : Stack α} (h : s.elements = []) : s.pop = .error .empty := by
  obtain ⟨elements, capacity, length, hl⟩ := s
  cases h
  rfl

theorem pop_of_cons {s : Stack α} {a : α} {rest : List α} (h : s.elements = a :: rest) :
    s.pop = .ok (a, ofList rest s.capacity) := by
  obtain ⟨elements, capacity, length, hl⟩ := s
  cases h
  subst hl
  rfl

theorem nth?_eq_none_iff {s : Stack α} {n : Nat} : s.nth? n = none ↔ n = 0 ∨ s.length < n := by
  cases n with
  | zero => exact ⟨fun _ => .inl rfl, fun _ => rfl⟩
  | succ i =>
    rw [nth?, List.getElem?_eq_none_iff, s.length_eq]
    omega

theorem eraseIdx_split {above below : List α} {a : α} :
    (above ++ a :: below).eraseIdx above.length = above ++ below := by
  rw [List.eraseIdx_append_of_length_le (Nat.le_refl _), Nat.sub_self, List.eraseIdx_cons_zero]

-- ---------------------------------------------------------------------------
-- Operations as data
-- ---------------------------------------------------------------------------

/-- A call of one of the operations. -/
inductive Op (α : Type) where
  | push (a : α)
  | putLast (a : α)
  | pop
  | peek
  | peekNth (n : Nat)
  | modifyNth (n : Nat) (f : α → α)
  | search (a : α)
  | remove (a : α)
  | removeNth (n : Nat)
  | insertNth (n : Nat) (a : α)
  | swap (m n : Nat)
  | clear

/-- What a call that succeeds returns. -/
inductive Reply (α : Type) where
  | done
  | element (a : α)
  | position (n : Option Nat)
  | found (b : Bool)
  deriving DecidableEq, Repr

/-- The answer of a call that changes the stack: the new stack, or the error and the old one. -/
def Reply.ofChange (s : Stack α) : Except Error (Stack α) → Except Error (Reply α) × Stack α
  | .ok t => (.ok .done, t)
  | .error e => (.error e, s)

/-- The answer of a call that takes an element out. -/
def Reply.ofTaken (s : Stack α) : Except Error (α × Stack α) → Except Error (Reply α) × Stack α
  | .ok (a, t) => (.ok (.element a), t)
  | .error e => (.error e, s)

/-- Carries out a call. -/
def Op.run [BEq α] (op : Op α) (s : Stack α) : Except Error (Reply α) × Stack α :=
  match op with
  | .push a => Reply.ofChange s (s.push a)
  | .putLast a => Reply.ofChange s (s.putLast a)
  | .pop => Reply.ofTaken s s.pop
  | .peek => (s.peek.map .element, s)
  | .peekNth n => ((s.peekNth n).map .element, s)
  | .modifyNth n f => Reply.ofChange s (s.modifyNth n f)
  | .search a => (.ok (.position (s.search a)), s)
  | .remove a => (.ok (.found (s.search a).isSome), s.remove a)
  | .removeNth n => Reply.ofTaken s (s.removeNth n)
  | .insertNth n a => Reply.ofChange s (s.insertNth n a)
  | .swap m n => Reply.ofChange s (s.swap m n)
  | .clear => (.ok .done, s.clear)

-- ---------------------------------------------------------------------------
-- Text and log
-- ---------------------------------------------------------------------------

/-- Capacity and contents, each element shown by `render`. -/
def describe (render : α → String) (s : Stack α) : String :=
  "Stack \x7b capacity: " ++ toString s.capacity
    ++ ", elements: " ++ Log.bracketed (s.elements.map render) ++ " \x7d"

/-- The name under which a call is logged. Looking at an element is logged even if there is none;
other calls only if they succeed, and `search` and `modifyNth` never. -/
def Op.logged? (op : Op α) (reply : Except Error (Reply α)) : Option String :=
  match op, reply with
  | .peek, _ => some "peek"
  | .peekNth _, _ => some "peek_nth"
  | _, .error _ => none
  | .push _, _ => some "push"
  | .putLast _, _ => some "put_last"
  | .pop, _ => some "pop"
  | .remove _, .ok (.found true) => some "remove"
  | .removeNth _, _ => some "remove_nth"
  | .insertNth _ _, _ => some "insert_nth"
  | .swap _ _, _ => some "swap"
  | .clear, _ => some "clear"
  | .remove _, _ | .search _, _ | .modifyNth _ _, _ => none

/-- The log of an access: its name and the number of elements, then every element with its position. -/
def accessLog (render : α → String) (action : String) (s : Stack α) : List Log.Entry :=
  ⟨.trace, "stack access", [("action", .text action), ("len", .number s.length)]⟩
    :: s.elements.zipIdx.map fun (a, i) => ⟨.trace, "  " ++ toString (i + 1) ++ ": " ++ render a, []⟩

/-- The log of a call, given the stack it left and its reply. -/
def Op.log (render : α → String) (op : Op α) (reply : Except Error (Reply α)) (after : Stack α) :
    List Log.Entry :=
  match op.logged? reply with
  | none => []
  | some action => after.accessLog render action

end Stack

end CoinScript
