import CoinScript.Stack

/-!
# Stacks as bounded lists

What a call does to a plain list, top first, can be said by splitting the list where the call looks, and
which calls fail, by counting its elements. Neither needs the operations of the stack. The main result is
that a new stack answers every sequence of calls like the list, whatever equality its elements have. It
never holds an element too many, and a call that fails leaves it as it was.
-/

namespace CoinScript

namespace Stack

variable {α : Type} {capacity n m : Nat} {a b : α} {l l' above between below : List α}
  {op : Op α} {reply : Reply α} {answer : Except Error (Reply α)} {s t : Stack α}

/-! ## Calls on plain lists -/

namespace Op

/-- What a call that succeeds returns and what becomes of the list. The position of an element is by one
greater than the number of elements above it. -/
inductive Acts [BEq α] : Op α → List α → Reply α → List α → Prop where
  | push (a : α) (l : List α) : Acts (.push a) l .done (a :: l)
  | putLast (a : α) (l : List α) : Acts (.putLast a) l .done (l ++ [a])
  | pop (a : α) (below : List α) : Acts .pop (a :: below) (.element a) below
  | peek (a : α) (below : List α) : Acts .peek (a :: below) (.element a) (a :: below)
  | peekNth (above : List α) (a : α) (below : List α) :
    Acts (.peekNth (above.length + 1)) (above ++ a :: below) (.element a) (above ++ a :: below)
  | modifyNth (above : List α) (a : α) (below : List α) (f : α → α) :
    Acts (.modifyNth (above.length + 1) f) (above ++ a :: below) .done (above ++ f a :: below)
  | search_found (a : α) (above : List α) (b : α) (below : List α)
    (habove : ∀ c ∈ above, (c == a) = false) (hb : (b == a) = true) :
    Acts (.search a) (above ++ b :: below) (.position (some (above.length + 1))) (above ++ b :: below)
  | search_absent (a : α) (l : List α) (h : ∀ c ∈ l, (c == a) = false) :
    Acts (.search a) l (.position none) l
  | remove_found (a : α) (above : List α) (b : α) (below : List α)
    (habove : ∀ c ∈ above, (c == a) = false) (hb : (b == a) = true) :
    Acts (.remove a) (above ++ b :: below) (.found true) (above ++ below)
  | remove_absent (a : α) (l : List α) (h : ∀ c ∈ l, (c == a) = false) :
    Acts (.remove a) l (.found false) l
  | removeNth (above : List α) (a : α) (below : List α) :
    Acts (.removeNth (above.length + 1)) (above ++ a :: below) (.element a) (above ++ below)
  | insertNth (above : List α) (a : α) (below : List α) :
    Acts (.insertNth (above.length + 1) a) (above ++ below) .done (above ++ a :: below)
  | swap (above : List α) (a : α) (between : List α) (b : α) (below : List α) :
    Acts (.swap (above.length + 1) ((above ++ a :: between).length + 1))
      (above ++ a :: between ++ b :: below) .done (above ++ b :: between ++ a :: below)
  | swap_back (above : List α) (a : α) (between : List α) (b : α) (below : List α) :
    Acts (.swap ((above ++ a :: between).length + 1) (above.length + 1))
      (above ++ a :: between ++ b :: below) .done (above ++ b :: between ++ a :: below)
  | swap_self (above : List α) (a : α) (below : List α) :
    Acts (.swap (above.length + 1) (above.length + 1)) (above ++ a :: below) .done (above ++ a :: below)
  | clear (l : List α) : Acts .clear l .done []

/-- The calls that add an element. -/
def adds : Op α → Bool
  | .push _ | .putLast _ | .insertNth _ _ => true
  | _ => false

/-- The calls that ask for the top. -/
def asksTop : Op α → Bool
  | .pop | .peek => true
  | _ => false

/-- The positions that a call asks for, in the order in which they are looked up. -/
def positions : Op α → List Nat
  | .peekNth n | .modifyNth n _ | .removeNth n | .insertNth n _ => [n]
  | .swap m n => [m, n]
  | _ => []

/-- The last position that a call can ask for where there are `length` elements: the bottom, and one past
it for an element to be added. -/
def lastPosition (length : Nat) (op : Op α) : Nat := if op.adds then length + 1 else length

/-- The first position that a call asks for in vain where there are `length` elements. -/
def missing? (length : Nat) (op : Op α) : Option Nat :=
  op.positions.find? fun n => n = 0 ∨ op.lastPosition length < n

/-- How a call fails on a list that may have `capacity` elements, if it does. A list without room is noticed
before a position out of range. -/
def failure? (capacity : Nat) (op : Op α) (l : List α) : Option Error :=
  if op.adds ∧ capacity ≤ l.length then some (.full capacity)
  else if op.asksTop ∧ l.isEmpty then some .empty
  else (op.missing? l.length).map fun n => .notFound n l.length

/-- The answer to a call on a list that may have `capacity` elements, and what becomes of the list. -/
inductive Answers [BEq α] (capacity : Nat) (op : Op α) (l : List α) :
    Except Error (Reply α) → List α → Prop where
  | ok {reply : Reply α} {l' : List α} (hsucceeds : op.failure? capacity l = none)
    (hacts : op.Acts l reply l') : Answers capacity op l (.ok reply) l'
  | error {e : Error} (hfails : op.failure? capacity l = some e) : Answers capacity op l (.error e) l

end Op

/-- The answers to calls on a list that may have `capacity` elements, made one after the other, and what
becomes of the list. -/
inductive AllAnswered [BEq α] (capacity : Nat) :
    List (Op α) → List α → List (Except Error (Reply α)) → List α → Prop where
  | nil (l : List α) : AllAnswered capacity [] l [] l
  | cons {op : Op α} {calls : List (Op α)} {answer : Except Error (Reply α)}
    {answers : List (Except Error (Reply α))} {l l' l'' : List α}
    (hfirst : op.Answers capacity l answer l') (hothers : AllAnswered capacity calls l' answers l'') :
    AllAnswered capacity (op :: calls) l (answer :: answers) l''

/-- Carries out calls, one after the other. -/
def runAll [BEq α] : List (Op α) → Stack α → List (Except Error (Reply α)) × Stack α
  | [], s => ([], s)
  | op :: calls, s =>
    let (answer, t) := op.run s
    let (answers, u) := runAll calls t
    (answer :: answers, u)

/-! ## Operations on split lists -/

/-- A position in range splits the list at its element. -/
theorem exists_split (hn : 0 < n) (hle : n ≤ l.length) :
    ∃ above a below, l = above ++ a :: below ∧ n = above.length + 1 := by
  have hlt : n - 1 < l.length := by omega
  refine ⟨l.take (n - 1), l[n - 1], l.drop (n - 1 + 1), ?_, ?_⟩
  · rw [List.getElem_cons_drop, List.take_append_drop]
  · rw [List.length_take]
    omega

theorem exists_split_two (hm : 0 < m) (hmn : m < n) (hn : n ≤ l.length) :
    ∃ above a between b below, l = above ++ a :: between ++ b :: below ∧ m = above.length + 1 ∧
      n = (above ++ a :: between).length + 1 := by
  obtain ⟨front, b, below, rfl, rfl⟩ := exists_split (Nat.lt_trans hm hmn) hn
  obtain ⟨above, a, between, rfl, rfl⟩ := exists_split hm (Nat.le_of_lt_succ hmn)
  exact ⟨above, a, between, b, below, rfl, rfl, rfl⟩

/-- A position in range or one past it splits the list above the place for an element. -/
theorem exists_gap (hn : 0 < n) (hle : n ≤ l.length + 1) :
    ∃ above below, l = above ++ below ∧ n = above.length + 1 := by
  refine ⟨l.take (n - 1), l.drop (n - 1), (List.take_append_drop _ _).symm, ?_⟩
  rw [List.length_take]
  omega

/-- Either no element is equal to `a`, or one is the first that is. -/
theorem absent_or_found [BEq α] (a : α) (l : List α) :
    (∀ c ∈ l, (c == a) = false) ∨ ∃ above b below, l = above ++ b :: below ∧
      (∀ c ∈ above, (c == a) = false) ∧ (b == a) = true := by
  cases hfind : l.find? (· == a) with
  | none => exact .inl (by simpa using hfind)
  | some b =>
    obtain ⟨hb, above, below, rfl, habove⟩ := List.find?_eq_some_iff_append.1 hfind
    exact .inr ⟨above, b, below, rfl, by simpa using habove, hb⟩

theorem nth?_split :
    (ofList (above ++ a :: below) capacity).nth? (above.length + 1) = some a := by
  simp only [nth?, elements_ofList, List.getElem?_append_right (Nat.le_refl _), Nat.sub_self,
    List.getElem?_cons_zero]

theorem set_split (x : α) : (above ++ a :: below).set above.length x = above ++ x :: below := by
  rw [List.set_append_right _ _ (Nat.le_refl _), Nat.sub_self, List.set_cons_zero]

theorem insertIdx_split (a : α) : (above ++ below).insertIdx above.length a = above ++ a :: below := by
  induction above with
  | nil => rfl
  | cons first above ih => exact congrArg (first :: ·) ih

theorem modifyNth_split (f : α → α) :
    (ofList (above ++ a :: below) capacity).modifyNth (above.length + 1) f =
      .ok (ofList (above ++ f a :: below) capacity) := by
  simp only [modifyNth, nth?_split, elements_ofList, Nat.add_sub_cancel, refill_eq, set_split,
    capacity_ofList]

theorem removeNth_split :
    (ofList (above ++ a :: below) capacity).removeNth (above.length + 1) =
      .ok (a, ofList (above ++ below) capacity) := by
  simp only [removeNth, nth?_split, elements_ofList, Nat.add_sub_cancel, refill_eq, eraseIdx_split,
    capacity_ofList]

theorem push_of_lt (h : s.length < s.capacity) :
    s.push a = .ok (ofList (a :: s.elements) s.capacity) := by
  rw [push_eq, if_pos h]

theorem push_of_full (h : s.capacity ≤ s.length) : s.push a = .error (.full s.capacity) :=
  if_neg (Nat.not_lt.2 h)

theorem putLast_of_lt (h : s.length < s.capacity) :
    s.putLast a = .ok (ofList (s.elements ++ [a]) s.capacity) := by
  rw [putLast, if_pos h, refill_eq]

theorem putLast_of_full (h : s.capacity ≤ s.length) : s.putLast a = .error (.full s.capacity) :=
  if_neg (Nat.not_lt.2 h)

theorem insertNth_of_full (h : s.capacity ≤ s.length) :
    s.insertNth n a = .error (.full s.capacity) :=
  if_pos h

theorem insertNth_of_missing (hroom : s.length < s.capacity) (h : n = 0 ∨ s.length + 1 < n) :
    s.insertNth n a = .error (s.notFound n) := by
  rw [insertNth, if_neg (Nat.not_le.2 hroom), if_pos h]

theorem insertNth_split (hroom : (above ++ below).length < capacity) :
    (ofList (above ++ below) capacity).insertNth (above.length + 1) a =
      .ok (ofList (above ++ a :: below) capacity) := by
  have hplace : ¬(above.length + 1 = 0 ∨ (above ++ below).length + 1 < above.length + 1) := by
    rw [List.length_append]
    omega
  simp only [insertNth, capacity_ofList, length_ofList, if_neg (Nat.not_le.2 hroom), if_neg hplace,
    elements_ofList, Nat.add_sub_cancel, refill_eq, insertIdx_split]

theorem swap_eq (hm : s.nth? m = some a) (hn : s.nth? n = some b) :
    s.swap m n = .ok (ofList ((s.elements.set (m - 1) b).set (n - 1) a) s.capacity) := by
  simp only [swap, hm, hn, refill_eq]

theorem nth?_split_two :
    (ofList (above ++ a :: between ++ b :: below) capacity).nth? (above.length + 1) = some a := by
  rw [List.append_assoc]
  exact nth?_split

theorem swap_split :
    (ofList (above ++ a :: between ++ b :: below) capacity).swap (above.length + 1)
        ((above ++ a :: between).length + 1) =
      .ok (ofList (above ++ b :: between ++ a :: below) capacity) := by
  have hupper : (above ++ a :: between ++ b :: below).set above.length b =
      above ++ b :: between ++ b :: below := by
    rw [List.append_assoc, List.cons_append, set_split, ← List.cons_append, ← List.append_assoc]
  have hlower : (above ++ b :: between ++ b :: below).set (above ++ a :: between).length a =
      above ++ b :: between ++ a :: below := by
    have hlength : (above ++ a :: between).length = (above ++ b :: between).length := by
      rw [List.length_append, List.length_append, List.length_cons, List.length_cons]
    rw [hlength, set_split]
  rw [swap_eq nth?_split_two nth?_split, Nat.add_sub_cancel, Nat.add_sub_cancel, elements_ofList,
    hupper, hlower, capacity_ofList]

theorem swap_split_back :
    (ofList (above ++ a :: between ++ b :: below) capacity).swap ((above ++ a :: between).length + 1)
        (above.length + 1) =
      .ok (ofList (above ++ b :: between ++ a :: below) capacity) := by
  have hne : (above ++ a :: between).length ≠ above.length := by
    rw [List.length_append, List.length_cons]
    omega
  rw [← swap_split, swap_eq nth?_split nth?_split_two, swap_eq nth?_split_two nth?_split,
    Nat.add_sub_cancel, Nat.add_sub_cancel, List.set_comm _ _ hne]

theorem swap_split_self :
    (ofList (above ++ a :: below) capacity).swap (above.length + 1) (above.length + 1) =
      .ok (ofList (above ++ a :: below) capacity) := by
  rw [swap_eq nth?_split nth?_split, Nat.add_sub_cancel, elements_ofList, set_split, set_split,
    capacity_ofList]

section Equality

variable [BEq α]

theorem search_split (habove : ∀ c ∈ above, (c == a) = false) (hb : (b == a) = true) :
    (ofList (above ++ b :: below) capacity).search a = some (above.length + 1) := by
  rw [search, elements_ofList, List.findIdx?_append, List.findIdx?_eq_none_iff.2 habove,
    Option.none_or, List.findIdx?_cons, if_pos hb, Option.map_some, Option.map_some, Nat.zero_add]

theorem search_eq_none (h : ∀ c ∈ l, (c == a) = false) : (ofList l capacity).search a = none := by
  rw [search, elements_ofList, List.findIdx?_eq_none_iff.2 h, Option.map_none]

theorem remove_split (habove : ∀ c ∈ above, (c == a) = false) (hb : (b == a) = true) :
    (ofList (above ++ b :: below) capacity).remove a = ofList (above ++ below) capacity := by
  have herase : (b :: below).eraseP (· == a) = below := List.eraseP_cons_of_pos hb
  rw [remove, elements_ofList, capacity_ofList, List.erase_eq_eraseP',
    List.eraseP_append_right _ (by simpa using habove), herase]

theorem remove_eq_self (h : ∀ c ∈ l, (c == a) = false) :
    (ofList l capacity).remove a = ofList l capacity := by
  rw [remove, elements_ofList, capacity_ofList, List.erase_eq_eraseP',
    List.eraseP_of_forall_not (by simpa using h)]

end Equality

/-! ## Which calls fail -/

namespace Op

theorem missing?_eq_none_iff {length : Nat} :
    op.missing? length = none ↔ ∀ n ∈ op.positions, 0 < n ∧ n ≤ op.lastPosition length := by
  simp only [missing?, List.find?_eq_none, decide_eq_true_eq]
  exact forall₂_congr fun n _ => by omega

theorem missing?_of_one {length : Nat} (hone : op.positions = [m]) (h : op.missing? length = some n) :
    m = n ∧ (m = 0 ∨ op.lastPosition length < m) := by
  simp only [missing?, hone, List.find?_cons, List.find?_nil] at h
  split at h
  · rename_i hmissing
    exact ⟨Option.some.inj h, of_decide_eq_true hmissing⟩
  · cases h

/-- An exchange misses its second position only if it finds the first. -/
theorem missing?_of_swap {length first second : Nat}
    (h : (swap first second : Op α).missing? length = some n) :
    (first = n ∧ (first = 0 ∨ length < first)) ∨
      (¬(first = 0 ∨ length < first) ∧ second = n ∧ (second = 0 ∨ length < second)) := by
  have hlast : (swap first second : Op α).lastPosition length = length := rfl
  simp only [missing?, positions, hlast, List.find?_cons, List.find?_nil] at h
  split at h
  · rename_i hmissing
    exact .inl ⟨Option.some.inj h, of_decide_eq_true hmissing⟩
  · rename_i hfound
    split at h
    · rename_i hmissing
      exact .inr ⟨of_decide_eq_false hfound, Option.some.inj h, of_decide_eq_true hmissing⟩
    · cases h

theorem missing?_of_asksTop (h : op.asksTop) (length : Nat) : op.missing? length = none := by
  cases op with
  | pop => rfl
  | peek => rfl
  | _ => cases h

theorem adds_of_asksTop (h : op.asksTop) : op.adds = false := by
  cases op with
  | pop => rfl
  | peek => rfl
  | _ => cases h

theorem failure?_eq_full_iff {k : Nat} :
    op.failure? capacity l = some (.full k) ↔ k = capacity ∧ op.adds ∧ capacity ≤ l.length := by
  unfold failure?
  split
  · rename_i hfull
    simp only [Option.some.injEq, Error.full.injEq, hfull, and_true]
    exact eq_comm
  · rename_i hroom
    simp only [hroom, and_false, iff_false]
    split <;> simp

theorem failure?_eq_empty_iff : op.failure? capacity l = some .empty ↔ op.asksTop ∧ l = [] := by
  unfold failure?
  split
  · rename_i hfull
    have htop : ¬op.asksTop := fun htop => by simp [adds_of_asksTop htop] at hfull
    simp [htop]
  · split
    · rename_i htop
      simpa using htop
    · rename_i hthere
      rw [List.isEmpty_iff] at hthere
      simp [hthere]

theorem failure?_eq_notFound_iff {k : Nat} :
    op.failure? capacity l = some (.notFound n k) ↔
      k = l.length ∧ ¬(op.adds ∧ capacity ≤ l.length) ∧ op.missing? l.length = some n := by
  unfold failure?
  split
  · rename_i hfull
    simp [hfull]
  · rename_i hroom
    split
    · rename_i htop
      simp [missing?_of_asksTop htop.1]
    · simp only [Option.map_eq_some_iff, Error.notFound.injEq, hroom, not_false_eq_true, true_and]
      constructor
      · rintro ⟨_, hmissing, rfl, rfl⟩
        exact ⟨rfl, hmissing⟩
      · rintro ⟨rfl, hmissing⟩
        exact ⟨n, hmissing, rfl, rfl⟩

theorem failure?_eq_none_iff :
    op.failure? capacity l = none ↔
      (op.adds → l.length < capacity) ∧ (op.asksTop → l ≠ []) ∧ op.missing? l.length = none := by
  unfold failure?
  split
  · rename_i hfull
    simp [hfull.1, Nat.not_lt.2 hfull.2]
  · rename_i hroom
    split
    · rename_i htop
      simp [htop.1, List.isEmpty_iff.1 htop.2]
    · rename_i hthere
      have hlt : op.adds → l.length < capacity := fun hadds =>
        Nat.lt_of_not_le fun hle => hroom ⟨hadds, hle⟩
      have hne : op.asksTop → l ≠ [] := fun htop hnil => hthere ⟨htop, List.isEmpty_iff.2 hnil⟩
      rw [Option.map_eq_none_iff]
      exact ⟨fun hmissing => ⟨hlt, hne, hmissing⟩, fun h => h.2.2⟩

end Op

theorem nth?_of_missing (hone : op.positions = [m]) (hadds : op.adds = false)
    (h : op.missing? l.length = some n) : m = n ∧ (ofList l capacity).nth? m = none := by
  obtain ⟨rfl, hrange⟩ := Op.missing?_of_one hone h
  rw [Op.lastPosition, hadds] at hrange
  exact ⟨rfl, nth?_eq_none_iff.2 hrange⟩

/-! ## Answers to single calls -/

section Answers

variable [BEq α]

/-- A call acts on the elements of a stack as on a list, if there is room for what it adds. -/
theorem run_of_acts (hroom : op.adds → l.length < capacity) (h : op.Acts l reply l') :
    op.run (ofList l capacity) = (.ok reply, ofList l' capacity) := by
  cases h with
  | push a =>
    have hlt : (ofList l capacity).length < (ofList l capacity).capacity := hroom rfl
    rw [Op.run, push_of_lt hlt]
    rfl
  | putLast a =>
    have hlt : (ofList l capacity).length < (ofList l capacity).capacity := hroom rfl
    rw [Op.run, putLast_of_lt hlt]
    rfl
  | pop a below => rfl
  | peek a below => rfl
  | peekNth above a below =>
    rw [Op.run, peekNth, nth?_split]
    rfl
  | modifyNth above a below f =>
    rw [Op.run, modifyNth_split]
    rfl
  | search_found a above b below habove hb => rw [Op.run, search_split habove hb]
  | search_absent a l h => rw [Op.run, search_eq_none h]
  | remove_found a above b below habove hb =>
    rw [Op.run, search_split habove hb, remove_split habove hb]
    rfl
  | remove_absent a l h =>
    rw [Op.run, search_eq_none h, remove_eq_self h]
    rfl
  | removeNth above a below =>
    rw [Op.run, removeNth_split]
    rfl
  | insertNth above a below =>
    rw [Op.run, insertNth_split (hroom rfl)]
    rfl
  | swap above a between b below =>
    rw [Op.run, swap_split]
    rfl
  | swap_back above a between b below =>
    rw [Op.run, swap_split_back]
    rfl
  | swap_self above a below =>
    rw [Op.run, swap_split_self]
    rfl
  | clear l => rfl

/-- A call that does not fail acts on the list. -/
theorem exists_acts (h : op.failure? capacity l = none) : ∃ reply l', op.Acts l reply l' := by
  obtain ⟨-, hne, hmissing⟩ := Op.failure?_eq_none_iff.1 h
  have hrange := Op.missing?_eq_none_iff.1 hmissing
  cases op with
  | push a => exact ⟨_, _, .push a l⟩
  | putLast a => exact ⟨_, _, .putLast a l⟩
  | pop =>
    obtain ⟨a, below, rfl⟩ := List.exists_cons_of_ne_nil (hne rfl)
    exact ⟨_, _, .pop a below⟩
  | peek =>
    obtain ⟨a, below, rfl⟩ := List.exists_cons_of_ne_nil (hne rfl)
    exact ⟨_, _, .peek a below⟩
  | peekNth n =>
    obtain ⟨hpos, hle⟩ := hrange n (.head _)
    obtain ⟨above, a, below, rfl, rfl⟩ := exists_split hpos hle
    exact ⟨_, _, .peekNth above a below⟩
  | modifyNth n f =>
    obtain ⟨hpos, hle⟩ := hrange n (.head _)
    obtain ⟨above, a, below, rfl, rfl⟩ := exists_split hpos hle
    exact ⟨_, _, .modifyNth above a below f⟩
  | search a =>
    rcases absent_or_found a l with habsent | ⟨above, b, below, rfl, habove, hb⟩
    · exact ⟨_, _, .search_absent a l habsent⟩
    · exact ⟨_, _, .search_found a above b below habove hb⟩
  | remove a =>
    rcases absent_or_found a l with habsent | ⟨above, b, below, rfl, habove, hb⟩
    · exact ⟨_, _, .remove_absent a l habsent⟩
    · exact ⟨_, _, .remove_found a above b below habove hb⟩
  | removeNth n =>
    obtain ⟨hpos, hle⟩ := hrange n (.head _)
    obtain ⟨above, a, below, rfl, rfl⟩ := exists_split hpos hle
    exact ⟨_, _, .removeNth above a below⟩
  | insertNth n a =>
    obtain ⟨hpos, hle⟩ := hrange n (.head _)
    obtain ⟨above, below, rfl, rfl⟩ := exists_gap hpos hle
    exact ⟨_, _, .insertNth above a below⟩
  | swap m n =>
    obtain ⟨hm, hm'⟩ := hrange m (.head _)
    obtain ⟨hn, hn'⟩ := hrange n (.tail _ (.head _))
    -- the list is split first at the lower of both positions, whichever is named first
    rcases Nat.lt_trichotomy m n with hlt | rfl | hlt
    · obtain ⟨above, a, between, b, below, rfl, rfl, rfl⟩ := exists_split_two hm hlt hn'
      exact ⟨_, _, .swap above a between b below⟩
    · obtain ⟨above, a, below, rfl, rfl⟩ := exists_split hm hm'
      exact ⟨_, _, .swap_self above a below⟩
    · obtain ⟨above, a, between, b, below, rfl, rfl, rfl⟩ := exists_split_two hn hlt hm'
      exact ⟨_, _, .swap_back above a between b below⟩
  | clear => exact ⟨_, _, .clear l⟩

theorem run_of_full (hadds : op.adds) (hfull : capacity ≤ l.length) :
    op.run (ofList l capacity) = (.error (.full capacity), ofList l capacity) := by
  have hle : (ofList l capacity).capacity ≤ (ofList l capacity).length := hfull
  cases op with
  | push a =>
    rw [Op.run, push_of_full hle]
    rfl
  | putLast a =>
    rw [Op.run, putLast_of_full hle]
    rfl
  | insertNth n a =>
    rw [Op.run, insertNth_of_full hle]
    rfl
  | _ => cases hadds

theorem run_of_empty (htop : op.asksTop) :
    op.run (ofList [] capacity) = (.error .empty, ofList [] capacity) := by
  cases op with
  | pop => rfl
  | peek => rfl
  | _ => cases htop

theorem run_of_missing (hroom : op.adds → l.length < capacity) (h : op.missing? l.length = some n) :
    op.run (ofList l capacity) = (.error (.notFound n l.length), ofList l capacity) := by
  cases op with
  | peekNth m =>
    obtain ⟨rfl, hnone⟩ := nth?_of_missing rfl rfl h
    rw [Op.run, peekNth, hnone]
    rfl
  | modifyNth m f =>
    obtain ⟨rfl, hnone⟩ := nth?_of_missing rfl rfl h
    rw [Op.run, modifyNth, hnone]
    rfl
  | removeNth m =>
    obtain ⟨rfl, hnone⟩ := nth?_of_missing rfl rfl h
    rw [Op.run, removeNth, hnone]
    rfl
  | insertNth m a =>
    obtain ⟨rfl, hrange⟩ := Op.missing?_of_one rfl h
    have hlt : (ofList l capacity).length < (ofList l capacity).capacity := hroom rfl
    rw [Op.run, insertNth_of_missing hlt hrange]
    rfl
  | swap first second =>
    obtain ⟨rfl, hrange⟩ | ⟨hfirst, rfl, hrange⟩ := Op.missing?_of_swap h
    · have hnone : (ofList l capacity).nth? first = none := nth?_eq_none_iff.2 hrange
      rw [Op.run, swap, hnone]
      rfl
    · obtain ⟨a, ha⟩ : ∃ a, (ofList l capacity).nth? first = some a :=
        Option.ne_none_iff_exists'.1 (mt nth?_eq_none_iff.1 hfirst)
      have hnone : (ofList l capacity).nth? second = none := nth?_eq_none_iff.2 hrange
      rw [Op.run, swap, ha, hnone]
      rfl
  | _ => cases h

theorem run_of_failure {e : Error} (h : op.failure? capacity l = some e) :
    op.run (ofList l capacity) = (.error e, ofList l capacity) := by
  cases e with
  | full k =>
    obtain ⟨rfl, hadds, hfull⟩ := Op.failure?_eq_full_iff.1 h
    exact run_of_full hadds hfull
  | empty =>
    obtain ⟨htop, rfl⟩ := Op.failure?_eq_empty_iff.1 h
    exact run_of_empty htop
  | notFound n k =>
    obtain ⟨rfl, hroom, hmissing⟩ := Op.failure?_eq_notFound_iff.1 h
    exact run_of_missing (fun hadds => Nat.lt_of_not_le fun hle => hroom ⟨hadds, hle⟩) hmissing

theorem run_of_answers (h : op.Answers capacity l answer l') :
    op.run (ofList l capacity) = (answer, ofList l' capacity) := by
  cases h with
  | ok hsucceeds hacts => exact run_of_acts (Op.failure?_eq_none_iff.1 hsucceeds).1 hacts
  | error hfails => exact run_of_failure hfails

theorem exists_answers (capacity : Nat) (op : Op α) (l : List α) :
    ∃ answer l', op.Answers capacity l answer l' := by
  cases hfailure : op.failure? capacity l with
  | none =>
    obtain ⟨reply, l', hacts⟩ := exists_acts hfailure
    exact ⟨_, _, .ok hfailure hacts⟩
  | some e => exact ⟨_, _, .error hfailure⟩

/-- A stack answers a call as its list does. -/
theorem answers_run (s : Stack α) (op : Op α) :
    op.Answers s.capacity s.elements (op.run s).1 (op.run s).2.elements := by
  obtain ⟨answer, l', hanswers⟩ := exists_answers s.capacity op s.elements
  have hrun := run_of_answers hanswers
  rw [ofList_elements] at hrun
  rw [hrun]
  exact hanswers

theorem capacity_run (s : Stack α) (op : Op α) : (op.run s).2.capacity = s.capacity := by
  have hrun := run_of_answers (answers_run s op)
  rw [ofList_elements] at hrun
  rw [hrun, capacity_ofList]

theorem run_eq_iff :
    op.run (ofList l capacity) = (answer, ofList l' capacity) ↔ op.Answers capacity l answer l' := by
  refine ⟨fun h => ?_, run_of_answers⟩
  have hanswers := answers_run (ofList l capacity) op
  rw [h] at hanswers
  exact hanswers

theorem run_eq_error_iff {e : Error} :
    (op.run s).1 = .error e ↔ op.failure? s.capacity s.elements = some e := by
  have hanswers := answers_run s op
  generalize (op.run s).1 = answer, (op.run s).2.elements = l' at hanswers
  cases hanswers with
  | ok hsucceeds hacts => simp [hsucceeds]
  | error hfails => simp [hfails]

/-- A call that fails leaves the stack as it was. -/
theorem run_snd_of_error {e : Error} (h : (op.run s).1 = .error e) : (op.run s).2 = s := by
  have hrun := run_of_failure (run_eq_error_iff.1 h)
  rw [ofList_elements] at hrun
  rw [hrun]

/-- Taking out what has just been put in gives it back and undoes the change. -/
theorem removeNth_of_insertNth
    (h : (Op.insertNth n a).run (ofList l capacity) = (.ok .done, ofList l' capacity)) :
    (Op.removeNth n).run (ofList l' capacity) = (.ok (.element a), ofList l capacity) := by
  cases run_eq_iff.1 h with
  | ok _ hacts =>
    cases hacts with
    | insertNth above a below => exact run_of_acts nofun (.removeNth above a below)

/-! ## Bounds -/

theorem Op.Acts.length_le (h : op.Acts l reply l') :
    l'.length ≤ if op.adds then l.length + 1 else l.length := by
  cases h <;> simp only [adds, List.length_append, List.length_cons, List.length_nil, if_pos,
    Bool.false_eq_true, if_false] <;> omega

/-- No answer leaves an element too many. -/
theorem Op.Answers.length_le (h : op.Answers capacity l answer l') (hl : l.length ≤ capacity) :
    l'.length ≤ capacity := by
  cases h with
  | ok hsucceeds hacts =>
    have hroom := (failure?_eq_none_iff.1 hsucceeds).1
    have hlength := hacts.length_le
    split at hlength
    · rename_i hadds
      exact Nat.le_trans hlength (hroom hadds)
    · exact Nat.le_trans hlength hl
  | error hfails => exact hl

/-! ## Histories -/

variable {calls : List (Op α)} {answers : List (Except Error (Reply α))}

theorem AllAnswered.length_le (h : AllAnswered capacity calls l answers l') (hl : l.length ≤ capacity) :
    l'.length ≤ capacity := by
  induction h with
  | nil l => exact hl
  | cons hfirst hothers ih => exact ih (hfirst.length_le hl)

theorem runAll_of_allAnswered (h : AllAnswered capacity calls l answers l') :
    runAll calls (ofList l capacity) = (answers, ofList l' capacity) := by
  induction h with
  | nil l => rfl
  | cons hfirst hothers ih => simp only [runAll, run_of_answers hfirst, ih]

theorem exists_allAnswered (capacity : Nat) (calls : List (Op α)) (l : List α) :
    ∃ answers l', AllAnswered capacity calls l answers l' := by
  induction calls generalizing l with
  | nil => exact ⟨[], l, .nil l⟩
  | cons op calls ih =>
    obtain ⟨answer, l', hfirst⟩ := exists_answers capacity op l
    obtain ⟨answers, l'', hothers⟩ := ih l'
    exact ⟨answer :: answers, l'', .cons hfirst hothers⟩

/-- A sequence of calls on a stack is answered as by its list, and in no other way. -/
theorem runAll_eq_iff :
    runAll calls (ofList l capacity) = (answers, ofList l' capacity) ↔
      AllAnswered capacity calls l answers l' := by
  refine ⟨fun h => ?_, runAll_of_allAnswered⟩
  obtain ⟨answers₀, l₀, hall⟩ := exists_allAnswered capacity calls l
  have hsame := (runAll_of_allAnswered hall).symm.trans h
  obtain ⟨rfl, hstack⟩ := Prod.mk.inj hsame
  obtain rfl : l₀ = l' := congrArg elements hstack
  exact hall

/-- Stacks are bounded lists. A new stack answers every sequence of calls as a list does that may have
`capacity` elements, and never has more. What is called next fails for lack of room if and only if it adds
an element to as many as there may be, and for lack of a position if and only if it asks for one out of
range and there is room. A call that fails leaves the stack as it was, and what has been put in at a
position can be taken out there, which undoes the change. -/
theorem calls_agree_with_list (capacity : Nat) (calls : List (Op α)) :
    let s := (runAll calls (new capacity)).2
    (∀ answers l, runAll calls (new capacity) = (answers, ofList l capacity) ↔
      AllAnswered capacity calls [] answers l) ∧
    s.capacity = capacity ∧
    s.length ≤ capacity ∧
    (∀ (op : Op α) (e : Error), (op.run s).1 = .error e → (op.run s).2 = s) ∧
    (∀ (op : Op α) (k : Nat), (op.run s).1 = .error (.full k) ↔
      k = capacity ∧ op.adds ∧ s.length = capacity) ∧
    (∀ (op : Op α) (n k : Nat), (op.run s).1 = .error (.notFound n k) ↔
      k = s.length ∧ ¬(op.adds ∧ s.length = capacity) ∧ op.missing? s.length = some n) ∧
    (∀ (n : Nat) (a : α) (t : Stack α), (Op.insertNth n a).run s = (.ok .done, t) →
      (Op.removeNth n).run t = (.ok (.element a), s)) := by
  intro s
  obtain ⟨answers, l, hall⟩ := exists_allAnswered capacity calls []
  have hrun : runAll calls (new capacity) = (answers, ofList l capacity) := runAll_of_allAnswered hall
  have hs : s = ofList l capacity := congrArg Prod.snd hrun
  have hle : l.length ≤ capacity := hall.length_le (Nat.zero_le capacity)
  have hfull : l.length = capacity ↔ capacity ≤ l.length := by omega
  clear_value s
  subst hs
  simp only [capacity_ofList, length_ofList, hfull]
  refine ⟨fun answers l => runAll_eq_iff, True.intro, hle, fun op e => run_snd_of_error, ?_, ?_, ?_⟩
  · intro op k
    exact run_eq_error_iff.trans Op.failure?_eq_full_iff
  · intro op n k
    exact run_eq_error_iff.trans Op.failure?_eq_notFound_iff
  · intro n a t hinsert
    have hcapacity := capacity_run (ofList l capacity) (.insertNth n a)
    rw [hinsert, capacity_ofList] at hcapacity
    obtain ⟨l', rfl⟩ : ∃ l', t = ofList l' capacity :=
      ⟨t.elements, by rw [← hcapacity, ofList_elements]⟩
    exact removeNth_of_insertNth hinsert

example : runAll [.push 'a', .putLast 'b', .insertNth 9 'c', .swap 1 3, .removeNth 2, .insertNth 2 'b']
    (new 2) =
      ([.ok .done, .ok .done, .error (.full 2), .error (.notFound 3 2), .ok (.element 'b'), .ok .done],
        ofList ['a', 'b'] 2) := rfl

end Answers

end Stack

end CoinScript
