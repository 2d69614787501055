import Mathlib
import CoinScript.Proofs.Numbers
import CoinScript.Proofs.Simulation

/-!
# What handlers leave behind

Opcodes move elements around, copy them, and put numbers, truth values and digests on the stack. No
number is longer than a machine word with a sign or than the element that it measures, and no digest is
longer than 32 bytes. So on stacks without larger elements than a push may have, or than 32 bytes, no
handler leaves a larger one. The other thing that handlers could use up are operations: only the check of
several signatures does, one for every key. The main result says both of all handlers.
-/

namespace CoinScript

/-! ## Stacks within bounds -/

namespace Stack

/-- There are no more elements than fit, and none has more than `size` bytes. -/
structure Within (capacity size : Nat) (s : Stack Bytes) : Prop where
  capacity_eq : s.capacity = capacity
  length_le : s.length ≤ capacity
  size_le : ∀ data ∈ s.elements, data.length ≤ size

variable {capacity size n : Nat} {s t : Stack Bytes} {data : Bytes}

theorem within_new : (new capacity).Within capacity size := by
  refine ⟨rfl, Nat.zero_le _, ?_⟩
  intro data hdata
  cases hdata

/-- What every operation comes to: other elements, which were there before or are small enough. -/
theorem Within.ofList (h : s.Within capacity size) {elements : List Bytes}
    (hlength : elements.length ≤ capacity)
    (hsize : ∀ data ∈ elements, data ∈ s.elements ∨ data.length ≤ size) :
    (Stack.ofList elements s.capacity).Within capacity size := by
  refine ⟨h.capacity_eq, hlength, ?_⟩
  intro data hdata
  rcases hsize data hdata with hold | hsmall
  · exact h.size_le data hold
  · exact hsmall

theorem Within.push (h : s.Within capacity size) (hdata : data.length ≤ size)
    (hpush : s.push data = .ok t) : t.Within capacity size := by
  rw [push_eq] at hpush
  split at hpush
  · rename_i hroom
    cases hpush
    rw [h.capacity_eq, s.length_eq] at hroom
    apply h.ofList
    · exact hroom
    · intro other hother
      rcases List.mem_cons.1 hother with rfl | hold
      · exact .inr hdata
      · exact .inl hold
  · cases hpush

theorem Within.pop (h : s.Within capacity size) (hpop : s.pop = .ok (data, t)) :
    t.Within capacity size ∧ data.length ≤ size := by
  cases hs : s.elements with
  | nil =>
    rw [pop_of_nil hs] at hpop
    cases hpop
  | cons first rest =>
    rw [pop_of_cons hs] at hpop
    cases hpop
    refine ⟨h.ofList ?_ ?_, h.size_le _ (by simp [hs])⟩
    · have hlength := h.length_le
      rw [s.length_eq, hs, List.length_cons] at hlength
      omega
    · intro other hother
      exact .inl (by simp [hs, hother])

theorem Within.nth? (h : s.Within capacity size) (hn : s.nth? n = some data) :
    data.length ≤ size := by
  cases n with
  | zero => cases hn
  | succ i => exact h.size_le data (List.mem_of_getElem? hn)

theorem Within.peekNth (h : s.Within capacity size) (hpeek : s.peekNth n = .ok data) :
    data.length ≤ size := by
  unfold Stack.peekNth at hpeek
  split at hpeek
  · cases hpeek
  · rename_i hn
    cases hpeek
    exact h.nth? hn

theorem Within.peek (h : s.Within capacity size) (hpeek : s.peek = .ok data) :
    data.length ≤ size := by
  unfold Stack.peek at hpeek
  split at hpeek
  · cases hpeek
  · rename_i rest hs
    cases hpeek
    exact h.size_le data (by simp [hs])

theorem Within.removeNth (h : s.Within capacity size) (hremove : s.removeNth n = .ok (data, t)) :
    t.Within capacity size ∧ data.length ≤ size := by
  unfold Stack.removeNth at hremove
  split at hremove
  · cases hremove
  · rename_i hn
    simp only [refill_eq] at hremove
    cases hremove
    refine ⟨h.ofList ?_ ?_, h.nth? hn⟩
    · have hlength := List.length_eraseIdx_le s.elements (n - 1)
      rw [← s.length_eq] at hlength
      exact Nat.le_trans hlength h.length_le
    · intro other hother
      exact .inl (List.mem_of_mem_eraseIdx hother)

theorem Within.insertNth (h : s.Within capacity size) (hdata : data.length ≤ size)
    (hinsert : s.insertNth n data = .ok t) : t.Within capacity size := by
  unfold Stack.insertNth at hinsert
  split at hinsert
  · cases hinsert
  · rename_i hroom
    split at hinsert
    · cases hinsert
    · rename_i hplace
      simp only [refill_eq] at hinsert
      cases hinsert
      rw [h.capacity_eq] at hroom
      rw [s.length_eq] at hroom hplace
      apply h.ofList
      · have hlength := List.length_insertIdx_le_succ (l := s.elements) (x := data) (i := n - 1)
        omega
      · intro other hother
        rw [List.mem_insertIdx (by omega)] at hother
        rcases hother with rfl | hold
        · exact .inr hdata
        · exact .inl hold

theorem Within.swap {m : Nat} (h : s.Within capacity size) (hswap : s.swap m n = .ok t) :
    t.Within capacity size := by
  unfold Stack.swap at hswap
  split at hswap
  · cases hswap
  · cases hswap
  · rename_i a b hm hn
    simp only [refill_eq] at hswap
    cases hswap
    apply h.ofList
    · rw [List.length_set, List.length_set, ← s.length_eq]
      exact h.length_le
    · intro other hother
      rcases List.mem_or_eq_of_mem_set hother with hset | rfl
      · rcases List.mem_or_eq_of_mem_set hset with hold | rfl
        · exact .inl hold
        · exact .inr (h.nth? hn)
      · exact .inr (h.nth? hm)

end Stack

/-! ## Properties that computations keep -/

section Keeps

variable {σ α β : Type} {P : σ → Prop} {Q : α → Prop} {R : β → Prop}

/-- A computation that succeeds keeps a property of the state, and its value has another one. -/
def Keeps (P : σ → Prop) (x : EStateM EvalError σ α) (Q : α → Prop) : Prop :=
  ∀ s a s', P s → x s = .ok a s' → P s' ∧ Q a

theorem keeps_pure {a : α} (h : Q a) : Keeps P (pure a) Q := by
  intro s b s' hs hrun
  cases hrun
  exact ⟨hs, h⟩

theorem keeps_throw (e : EvalError) : Keeps P (throw e) Q := by
  intro s a s' hs hrun
  cases hrun

theorem keeps_bind {x : EStateM EvalError σ α} {f : α → EStateM EvalError σ β} (hx : Keeps P x Q)
    (hf : ∀ a, Q a → Keeps P (f a) R) : Keeps P (x >>= f) R := by
  intro s b s' hs hrun
  simp only [bind, EStateM.bind] at hrun
  cases hfirst : x s with
  | ok a next =>
    rw [hfirst] at hrun
    obtain ⟨hnext, ha⟩ := hx s a next hs hfirst
    exact hf a ha next b s' hnext hrun
  | error e next =>
    rw [hfirst] at hrun
    cases hrun

theorem keeps_get : Keeps P get P := by
  intro s a s' hs hrun
  cases hrun
  exact ⟨hs, hs⟩

theorem keeps_modify {f : σ → σ} (h : ∀ s, P s → P (f s)) : Keeps P (modify f) fun _ => True := by
  intro s a s' hs hrun
  cases hrun
  exact ⟨h s hs, trivial⟩

theorem keeps_ite {p : Prop} [Decidable p] {x y : EStateM EvalError σ α} (hx : Keeps P x Q)
    (hy : Keeps P y Q) : Keeps P (if p then x else y) Q := by
  split
  · exact hx
  · exact hy

end Keeps

/-! ## Frames within bounds -/

/-- The size that no element exceeds: that of the largest push, or of the largest digest. -/
def Limits.largestElement (limits : Limits) : Nat := max limits.maxElementSize 32

/-- Both stacks are within bounds, and so many operations have been used. -/
structure Frame.Fits (limits : Limits) (count : Nat) (frame : Frame) : Prop where
  stack : frame.stack.Within limits.maxStackSize limits.largestElement
  altStack : frame.altStack.Within limits.maxStackSize limits.largestElement
  opCount_eq : frame.opCount = count

/-- The number on top of the stack, which tells the check of several signatures how many keys to take. -/
def Frame.keyCount (flags : Flags) (frame : Frame) : Nat :=
  match frame.stack.elements with
  | [] => 0
  | top :: _ =>
    match ScriptNum.decode flags.minimalData ScriptNum.operandSize top with
    | .ok n => n.toNat
    | .error _ => 0

namespace Action

variable {α : Type} {env : Env} {limits : Limits} {count : Nat} {P : Frame → Prop} {Q : α → Prop}

/-! ## Taking elements -/

theorem keeps_looking (f : Stack Bytes → Except Stack.Error α) : Keeps P (look f) fun _ => True := by
  intro frame a frame' hframe hrun
  obtain ⟨-, rfl⟩ := look_eq_ok hrun
  exact ⟨hframe, trivial⟩

theorem keeps_require (n : Nat) : Keeps P (require n) fun _ => True := keeps_looking _

theorem keeps_orFail {ε : Type} (toError : ε → EvalError) {x : Except ε α}
    (h : ∀ a, x = .ok a → Q a) : Keeps P (orFail toError x) Q := by
  cases x with
  | ok a => exact keeps_pure (h a rfl)
  | error e => exact keeps_throw _

/-- A property that a frame does not lose when an element is taken off the main stack, or when the checker is
asked. -/
structure KeptByTaking (P : Frame → Prop) : Prop where
  pop : Keeps P pop fun _ => True
  asked : ∀ frame asked, P frame → P { frame with asked }

namespace KeptByTaking

theorem popNum (h : KeptByTaking P) : Keeps P (popNum env) fun _ => True :=
  keeps_bind h.pop fun _ _ => keeps_orFail _ fun _ _ => trivial

theorem popMany (h : KeptByTaking P) (n : Nat) : Keeps P (popMany n) fun _ => True := by
  induction n with
  | zero => exact keeps_pure trivial
  | succ n ih =>
    refine keeps_bind h.pop fun first _ => ?_
    exact keeps_bind ih fun rest _ => keeps_pure trivial

theorem askSignature (h : KeptByTaking P) (sig key : Bytes) :
    Keeps P (askSignature env sig key) fun _ => True := by
  intro frame _ frame' hframe hrun
  cases hrun
  exact ⟨h.asked frame _ hframe, trivial⟩

theorem checkSignature (h : KeptByTaking P) (sig key : Bytes) :
    Keeps P (checkSignature env sig key) fun _ => True := by
  refine keeps_bind (keeps_orFail (Q := fun _ => True) _ fun _ _ => trivial) fun _ _ => ?_
  refine keeps_bind (keeps_orFail (Q := fun _ => True) _ fun _ _ => trivial) fun _ _ => ?_
  exact h.askSignature sig key

theorem findKey (h : KeptByTaking P) (sig : Bytes) (keys : List Bytes) :
    Keeps P (findKey env sig keys) fun _ => True := by
  induction keys with
  | nil => exact keeps_pure trivial
  | cons key keys ih =>
    refine keeps_bind (h.checkSignature sig key) fun success _ => ?_
    exact keeps_ite (keeps_pure trivial) ih

theorem matchKeys (h : KeptByTaking P) (sigs keys : List Bytes) :
    Keeps P (matchKeys env sigs keys) fun _ => True := by
  induction sigs generalizing keys with
  | nil => exact keeps_pure trivial
  | cons sig sigs ih =>
    refine keeps_bind (h.findKey sig keys) fun found _ => ?_
    cases found with
    | some keys => exact ih keys
    | none => exact keeps_pure trivial

/-- What is done once the number of keys, or of signatures, is known. -/
theorem popList (h : KeptByTaking P) (n : Nat) : Keeps P (do
    require n
    let elements ← Action.popMany n
    return elements.reverse) fun _ => True := by
  refine keeps_bind (keeps_require _) fun _ _ => ?_
  exact keeps_bind (h.popMany _) fun elements _ => keeps_pure trivial

theorem popSigs (h : KeptByTaking P) (keyCount : Nat) : Keeps P (popSigs env keyCount) fun _ => True :=
  keeps_bind h.popNum fun _ _ => keeps_ite (keeps_throw _) (h.popList _)

theorem popDummy (h : KeptByTaking P) : Keeps P (popDummy env) fun _ => True :=
  keeps_bind h.pop fun _ _ => keeps_ite (keeps_throw _) (keeps_pure trivial)

end KeptByTaking

/-- On frames within bounds, an action uses up no operations and leaves a frame within bounds. -/
abbrev KeepsFit (limits : Limits) (count : Nat) (x : Action α) (Q : α → Prop) : Prop :=
  Keeps (Frame.Fits limits count) x Q

/-! ## Primitives -/

theorem keeps_look {f : Stack Bytes → Except Stack.Error α}
    (hf : ∀ s a, s.Within limits.maxStackSize limits.largestElement → f s = .ok a → Q a) :
    KeepsFit limits count (look f) Q := by
  intro frame a frame' hframe hrun
  obtain ⟨hlooked, rfl⟩ := look_eq_ok hrun
  exact ⟨hframe, hf _ a hframe.stack hlooked⟩

theorem keeps_take {f : Stack Bytes → Except Stack.Error (α × Stack Bytes)}
    (hf : ∀ s a t, s.Within limits.maxStackSize limits.largestElement → f s = .ok (a, t) →
      t.Within limits.maxStackSize limits.largestElement ∧ Q a) :
    KeepsFit limits count (take f) Q := by
  intro frame a frame' hframe hrun
  unfold take at hrun
  cases htaken : f frame.stack with
  | error e =>
    rw [htaken] at hrun
    cases hrun
  | ok taken =>
    rw [htaken] at hrun
    cases hrun
    obtain ⟨hstack, ha⟩ := hf _ _ _ hframe.stack htaken
    exact ⟨⟨hstack, hframe.altStack, hframe.opCount_eq⟩, ha⟩

theorem keeps_alter {f : Stack Bytes → Except Stack.Error (Stack Bytes)}
    (hf : ∀ s t, s.Within limits.maxStackSize limits.largestElement → f s = .ok t →
      t.Within limits.maxStackSize limits.largestElement) :
    KeepsFit limits count (alter f) fun _ => True := by
  apply keeps_take
  intro s _ t hs htaken
  cases hf' : f s with
  | error e =>
    rw [hf'] at htaken
    cases htaken
  | ok u =>
    rw [hf'] at htaken
    cases htaken
    exact ⟨hf s t hs hf', trivial⟩

theorem keeps_pop : KeepsFit limits count pop (·.length ≤ limits.largestElement) :=
  keeps_take fun _ _ _ hs hpop => hs.pop hpop

theorem keeps_push {element : Bytes} (h : element.length ≤ limits.largestElement) :
    KeepsFit limits count (push element) fun _ => True :=
  keeps_alter fun _ _ hs hpush => hs.push h hpush

theorem keeps_peek : KeepsFit limits count peek (·.length ≤ limits.largestElement) :=
  keeps_look fun _ _ hs hpeek => hs.peek hpeek

theorem keeps_peekNth (n : Nat) :
    KeepsFit limits count (peekNth n) (·.length ≤ limits.largestElement) :=
  keeps_look fun _ _ hs hpeek => hs.peekNth hpeek

theorem keeps_removeNth (n : Nat) :
    KeepsFit limits count (removeNth n) (·.length ≤ limits.largestElement) :=
  keeps_take fun _ _ _ hs hremove => hs.removeNth hremove

theorem keeps_insertNth (n : Nat) {element : Bytes} (h : element.length ≤ limits.largestElement) :
    KeepsFit limits count (insertNth n element) fun _ => True :=
  keeps_alter fun _ _ hs hinsert => hs.insertNth h hinsert

theorem keeps_swap (m n : Nat) : KeepsFit limits count (swap m n) fun _ => True :=
  keeps_alter fun _ _ hs hswap => hs.swap hswap

theorem keeps_depth : KeepsFit limits count depth (· ≤ limits.maxStackSize) := by
  apply keeps_look
  intro s n hs hn
  cases hn
  exact hs.length_le

theorem keptByTaking_fits : KeptByTaking (Frame.Fits limits count) where
  pop := fun frame element frame' hframe hrun => ⟨(keeps_pop frame element frame' hframe hrun).1, trivial⟩
  asked := fun _ _ hframe => ⟨hframe.stack, hframe.altStack, hframe.opCount_eq⟩

theorem keeps_verify (byte : UInt8) (success : Bool) :
    KeepsFit limits count (verify byte success) fun _ => True :=
  keeps_ite (keeps_pure trivial) (keeps_throw _)

theorem keeps_altPush {element : Bytes} (h : element.length ≤ limits.largestElement) :
    KeepsFit limits count (altPush element) fun _ => True := by
  intro frame _ frame' hframe hrun
  unfold altPush at hrun
  cases hpush : frame.altStack.push element with
  | error e =>
    rw [hpush] at hrun
    cases hrun
  | ok altStack =>
    rw [hpush] at hrun
    cases hrun
    exact ⟨⟨hframe.stack, hframe.altStack.push h hpush, hframe.opCount_eq⟩, trivial⟩

theorem keeps_altPop : KeepsFit limits count altPop (·.length ≤ limits.largestElement) := by
  intro frame element frame' hframe hrun
  unfold altPop at hrun
  cases hpop : frame.altStack.pop with
  | error e =>
    rw [hpop] at hrun
    cases hrun
  | ok taken =>
    rw [hpop] at hrun
    cases hrun
    obtain ⟨haltStack, helement⟩ := hframe.altStack.pop hpop
    exact ⟨⟨hframe.stack, haltStack, hframe.opCount_eq⟩, helement⟩

theorem keeps_askLockTime (value : Int) :
    KeepsFit limits count (askLockTime env value) fun _ => True := by
  intro frame _ frame' hframe hrun
  cases hrun
  exact ⟨⟨hframe.stack, hframe.altStack, hframe.opCount_eq⟩, trivial⟩

/-! ## Numbers, truth values and digests -/

theorem keeps_popNum : KeepsFit limits count (popNum env) (·.natAbs < 2 ^ 31) := by
  refine keeps_bind keeps_pop fun element _ => ?_
  exact keeps_orFail _ fun n hn => ScriptNum.natAbs_of_decode hn

theorem keeps_pushNum {n : Int} (h : n.natAbs < 2 ^ 64) :
    KeepsFit limits count (pushNum n) fun _ => True := by
  apply keeps_push
  have hlength : (ScriptNum.encode n).length ≤ 8 + 1 := ScriptNum.length_encode_le (by omega)
  unfold Limits.largestElement
  omega

theorem keeps_pushBool (b : Bool) : KeepsFit limits count (pushBool b) fun _ => True := by
  apply keeps_push
  have hlength : (Element.ofBool b).length ≤ 1 := by cases b <;> decide
  unfold Limits.largestElement
  omega

theorem keeps_pushDigest {size : Nat} (digest : Digest size) (h : size ≤ 32) :
    KeepsFit limits count (push digest.bytes) fun _ => True := by
  apply keeps_push
  rw [digest.length_bytes]
  unfold Limits.largestElement
  omega

theorem keeps_concludeCheck (verifying : Opcode) (byte : UInt8) (success : Bool) :
    KeepsFit limits count (concludeCheck verifying byte success) fun _ => True :=
  keeps_ite (keeps_verify _ _) (keeps_pushBool _)

theorem natAbs_of_unaryResult? {n result : Int} {op : Opcode} (hn : n.natAbs < 2 ^ 31)
    (h : unaryResult? n op = some result) : result.natAbs < 2 ^ 64 := by
  unfold unaryResult? at h
  split at h <;> cases h
  case h_5 | h_6 => exact Nat.lt_of_le_of_lt (natAbs_ofCondition _) (by decide)
  all_goals omega

theorem natAbs_of_binaryResult? {a b result : Int} {op : Opcode} (ha : a.natAbs < 2 ^ 31)
    (hb : b.natAbs < 2 ^ 31) (h : binaryResult? a b op = some result) :
    result.natAbs < 2 ^ 64 := by
  unfold binaryResult? at h
  split at h <;> cases h
  case h_1 | h_2 | h_12 | h_13 => omega
  all_goals exact Nat.lt_of_le_of_lt (natAbs_ofCondition _) (by decide)

theorem smallInt?_le (op : Opcode) : op.smallInt?.getD 0 ≤ 256 := by
  have hbyte := op.byte.toNat_lt
  unfold Opcode.smallInt?
  simp only
  split
  · simp only [Option.getD_some]
    omega
  · exact Nat.zero_le _

theorem natAbs_constantOf (byte : UInt8) : (constantOf byte).natAbs < 2 ^ 64 := by
  unfold constantOf
  split
  · decide
  · rename_i op _ _
    have hsmall := smallInt?_le op
    omega
  · decide

/-! ## Handlers that use up no operations -/

theorem keeps_upgradableNop : KeepsFit limits count (upgradableNop env) fun _ => True :=
  keeps_ite (keeps_throw _) (keeps_pure trivial)

theorem keeps_checkLockTime : KeepsFit limits count (checkLockTime env) fun _ => True := by
  refine keeps_ite ?_ keeps_upgradableNop
  refine keeps_bind keeps_peek fun top _ => ?_
  refine keeps_bind (keeps_orFail (Q := fun _ => True) _ fun _ _ => trivial) fun lockTime _ => ?_
  refine keeps_ite (keeps_throw _) ?_
  refine keeps_bind (keeps_askLockTime lockTime) fun reached _ => ?_
  exact keeps_ite (keeps_pure trivial) (keeps_throw _)

theorem keeps_verifyTop (byte : UInt8) : KeepsFit limits count (verifyTop byte) fun _ => True := by
  refine keeps_bind keeps_peek fun top _ => ?_
  refine keeps_bind (keeps_verify _ _) fun _ _ => ?_
  exact keeps_bind keeps_pop fun _ _ => keeps_pure trivial

theorem keeps_toAltStack : KeepsFit limits count toAltStack fun _ => True :=
  keeps_bind keeps_pop fun _ helement => keeps_altPush helement

theorem keeps_fromAltStack : KeepsFit limits count fromAltStack fun _ => True :=
  keeps_bind keeps_altPop fun _ helement => keeps_push helement

theorem keeps_drop : KeepsFit limits count drop fun _ => True :=
  keeps_bind keeps_pop fun _ _ => keeps_pure trivial

theorem keeps_drop2 : KeepsFit limits count drop2 fun _ => True := by
  refine keeps_bind (keeps_require 2) fun _ _ => ?_
  refine keeps_bind keeps_pop fun _ _ => ?_
  exact keeps_bind keeps_pop fun _ _ => keeps_pure trivial

theorem keeps_dup : KeepsFit limits count dup fun _ => True :=
  keeps_bind (keeps_peekNth 1) fun _ hx => keeps_push hx

theorem keeps_dup2 : KeepsFit limits count dup2 fun _ => True := by
  refine keeps_bind (keeps_require 2) fun _ _ => ?_
  refine keeps_bind (keeps_peekNth 2) fun x1 h1 => ?_
  refine keeps_bind (keeps_peekNth 1) fun x2 h2 => ?_
  exact keeps_bind (keeps_push h1) fun _ _ => keeps_push h2

theorem keeps_dup3 : KeepsFit limits count dup3 fun _ => True := by
  refine keeps_bind (keeps_require 3) fun _ _ => ?_
  refine keeps_bind (keeps_peekNth 3) fun x1 h1 => ?_
  refine keeps_bind (keeps_peekNth 2) fun x2 h2 => ?_
  refine keeps_bind (keeps_peekNth 1) fun x3 h3 => ?_
  refine keeps_bind (keeps_push h1) fun _ _ => ?_
  exact keeps_bind (keeps_push h2) fun _ _ => keeps_push h3

theorem keeps_over2 : KeepsFit limits count over2 fun _ => True := by
  refine keeps_bind (keeps_require 4) fun _ _ => ?_
  refine keeps_bind (keeps_peekNth 4) fun x1 h1 => ?_
  refine keeps_bind (keeps_peekNth 3) fun x2 h2 => ?_
  exact keeps_bind (keeps_push h1) fun _ _ => keeps_push h2

theorem keeps_rot2 : KeepsFit limits count rot2 fun _ => True := by
  refine keeps_bind (keeps_require 6) fun _ _ => ?_
  refine keeps_bind (keeps_removeNth 6) fun x1 h1 => ?_
  refine keeps_bind (keeps_removeNth 5) fun x2 h2 => ?_
  exact keeps_bind (keeps_push h1) fun _ _ => keeps_push h2

theorem keeps_swap2 : KeepsFit limits count swap2 fun _ => True := by
  refine keeps_bind (keeps_require 4) fun _ _ => ?_
  exact keeps_bind (keeps_swap 4 2) fun _ _ => keeps_swap 3 1

theorem keeps_ifDup : KeepsFit limits count ifDup fun _ => True := by
  refine keeps_bind (keeps_peekNth 1) fun top htop => ?_
  exact keeps_ite (keeps_push htop) (keeps_pure trivial)

/-- The number of elements has to be a machine word, or else it could be too long as an element. -/
theorem keeps_pushDepth (hword : limits.maxStackSize < 2 ^ 64) :
    KeepsFit limits count pushDepth fun _ => True := by
  refine keeps_bind keeps_depth fun n hn => ?_
  apply keeps_pushNum
  omega

theorem keeps_nip : KeepsFit limits count nip fun _ => True := by
  refine keeps_bind (keeps_require 2) fun _ _ => ?_
  exact keeps_bind (keeps_removeNth 2) fun _ _ => keeps_pure trivial

theorem keeps_overTop : KeepsFit limits count overTop fun _ => True :=
  keeps_bind (keeps_peekNth 2) fun _ hx => keeps_push hx

theorem keeps_pickRoll (byte : UInt8) : KeepsFit limits count (pickRoll env byte) fun _ => True := by
  refine keeps_bind (keeps_require 2) fun _ _ => ?_
  refine keeps_bind keeps_popNum fun n _ => ?_
  refine keeps_bind keeps_depth fun len _ => ?_
  refine keeps_ite (keeps_throw _) (keeps_ite ?_ ?_)
  · exact keeps_bind (keeps_removeNth _) fun _ hx => keeps_push hx
  · exact keeps_bind (keeps_peekNth _) fun _ hx => keeps_push hx

theorem keeps_rot : KeepsFit limits count rot fun _ => True := by
  refine keeps_bind (keeps_require 3) fun _ _ => ?_
  exact keeps_bind (keeps_removeNth 3) fun _ hx => keeps_push hx

theorem keeps_swapTop : KeepsFit limits count swapTop fun _ => True :=
  keeps_bind (keeps_require 2) fun _ _ => keeps_swap 1 2

theorem keeps_tuck : KeepsFit limits count tuck fun _ => True := by
  refine keeps_bind (keeps_require 2) fun _ _ => ?_
  exact keeps_bind (keeps_peekNth 1) fun _ hx => keeps_insertNth 3 hx

theorem keeps_pushSize : KeepsFit limits count pushSize fun _ => True := by
  refine keeps_bind keeps_peek fun element helement => ?_
  apply keeps_push
  exact Nat.le_trans (ScriptNum.length_encode_le_natAbs _) helement

theorem keeps_equal (byte : UInt8) : KeepsFit limits count (equal byte) fun _ => True := by
  refine keeps_bind (keeps_require 2) fun _ _ => ?_
  refine keeps_bind keeps_pop fun x2 _ => ?_
  refine keeps_bind keeps_pop fun x1 _ => ?_
  exact keeps_concludeCheck _ _ _

theorem keeps_unaryNum (byte : UInt8) : KeepsFit limits count (unaryNum env byte) fun _ => True := by
  refine keeps_bind keeps_popNum fun n hn => ?_
  split
  · rename_i result hresult
    obtain ⟨op, -, hop⟩ := Option.bind_eq_some_iff.1 hresult
    exact keeps_pushNum (natAbs_of_unaryResult? hn hop)
  · exact keeps_throw _

theorem keeps_binaryNum (byte : UInt8) :
    KeepsFit limits count (binaryNum env byte) fun _ => True := by
  refine keeps_bind (keeps_require 2) fun _ _ => ?_
  refine keeps_bind keeps_popNum fun b hb => ?_
  refine keeps_bind keeps_popNum fun a ha => ?_
  split
  · rename_i result hresult
    obtain ⟨op, -, hop⟩ := Option.bind_eq_some_iff.1 hresult
    exact keeps_ite (keeps_verify _ _) (keeps_pushNum (natAbs_of_binaryResult? ha hb hop))
  · exact keeps_throw _

theorem keeps_within : KeepsFit limits count (within env) fun _ => True := by
  refine keeps_bind (keeps_require 3) fun _ _ => ?_
  refine keeps_bind keeps_popNum fun high _ => ?_
  refine keeps_bind keeps_popNum fun low _ => ?_
  refine keeps_bind keeps_popNum fun x _ => ?_
  exact keeps_pushBool _

theorem keeps_hash (byte : UInt8) : KeepsFit limits count (hash byte) fun _ => True := by
  refine keeps_bind keeps_pop fun data _ => ?_
  split
  · rename_i digest hdigest
    obtain ⟨op, -, hop⟩ := Option.bind_eq_some_iff.1 hdigest
    unfold hashResult? at hop
    split at hop <;> cases hop <;> exact keeps_pushDigest _ (by decide)
  · exact keeps_throw _

theorem keeps_checkSig (byte : UInt8) : KeepsFit limits count (checkSig env byte) fun _ => True := by
  refine keeps_bind (keeps_require 2) fun _ _ => ?_
  refine keeps_bind keeps_pop fun key _ => ?_
  refine keeps_bind keeps_pop fun sig _ => ?_
  refine keeps_bind (keptByTaking_fits.checkSignature sig key) fun success _ => ?_
  exact keeps_concludeCheck _ _ _

/-! ## Several signatures -/

theorem charge_eq_ok {frame frame' : Frame} {n : Nat} (h : charge limits n frame = .ok () frame') :
    frame.opCount + n ≤ limits.maxOps ∧ frame' = { frame with opCount := frame.opCount + n } := by
  simp only [charge] at h
  split at h
  · cases h
  · rename_i hops
    cases h
    exact ⟨by omega, rfl⟩

/-- The number that is taken off the stack is the number of keys. -/
theorem keyCount_of_popNum {frame frame' : Frame} {n : Int} (h : popNum env frame = .ok n frame') :
    frame.keyCount env.flags = n.toNat := by
  obtain ⟨top, next, hpop, hread⟩ := bind_eq_ok h
  obtain ⟨rest, hstack, -⟩ := pop_eq_ok hpop
  obtain ⟨hn, -⟩ := orFail_eq_ok hread
  simp only [Frame.keyCount, hstack, hn]

/-- The keys that are taken off the stack use up an operation each. -/
theorem fits_of_popKeys {frame frame' : Frame} {keys : List Bytes} (hframe : frame.Fits limits count)
    (h : popKeys env frame = .ok keys frame') :
    frame'.Fits limits (count + frame.keyCount env.flags) ∧
      count + frame.keyCount env.flags ≤ env.limits.maxOps := by
  obtain ⟨n, next, hnum, h⟩ := bind_eq_ok h
  rw [keyCount_of_popNum hnum]
  obtain ⟨hnext, -⟩ := keeps_popNum frame n next hframe hnum
  split at h
  · cases h
  · obtain ⟨_, charged, hcharge, h⟩ := bind_eq_ok h
    obtain ⟨hops, rfl⟩ := charge_eq_ok hcharge
    have hcharged : Frame.Fits limits (count + n.toNat)
        { next with opCount := next.opCount + n.toNat } :=
      ⟨hnext.stack, hnext.altStack, by rw [hnext.opCount_eq]⟩
    rw [hnext.opCount_eq] at hops
    exact ⟨(keptByTaking_fits.popList _ _ _ _ hcharged h).1, hops⟩

theorem fits_of_checkMultiSig {frame frame' : Frame} {byte : UInt8} (hframe : frame.Fits limits count)
    (h : checkMultiSig env byte frame = .ok () frame') :
    frame'.Fits limits (count + frame.keyCount env.flags) ∧
      count + frame.keyCount env.flags ≤ env.limits.maxOps := by
  obtain ⟨keys, next, hkeys, h⟩ := bind_eq_ok h
  obtain ⟨hnext, hops⟩ := fits_of_popKeys hframe hkeys
  have hrest : KeepsFit limits (count + frame.keyCount env.flags) (do
      let sigs ← popSigs env keys.length
      popDummy env
      let success ← matchKeys env sigs keys
      concludeCheck .opCheckMultiSigVerify byte success) fun _ => True := by
    refine keeps_bind (keptByTaking_fits.popSigs _) fun sigs _ => ?_
    refine keeps_bind keptByTaking_fits.popDummy fun _ _ => ?_
    refine keeps_bind (keptByTaking_fits.matchKeys sigs keys) fun success _ => ?_
    exact keeps_concludeCheck _ _ _
  exact ⟨(hrest _ _ _ hnext h).1, hops⟩

end Action

namespace Handler

variable {env : Env} {limits : Limits} {count : Nat} {byte : UInt8}

/-- The keys that a handler takes off the stack. -/
def keyCount (flags : Flags) (frame : Frame) : Handler → Nat
  | .checkMultiSig => frame.keyCount flags
  | _ => 0

open CoinScript.Action in
/-- Only the check of several signatures uses up operations. -/
theorem keeps_run (hword : limits.maxStackSize < 2 ^ 64) {handler : Handler}
    (hother : handler ≠ .checkMultiSig) :
    KeepsFit limits count (handler.run env byte) fun _ => True := by
  cases handler with
  | pushEmpty => exact keeps_push (Nat.zero_le _)
  | pushConstant => exact keeps_pushNum (natAbs_constantOf byte)
  | nop => exact keeps_pure trivial
  | upgradableNop => exact keeps_upgradableNop
  | checkLockTime => exact keeps_checkLockTime
  | verifyTop => exact keeps_verifyTop byte
  | abort => exact keeps_throw _
  | toAltStack => exact keeps_toAltStack
  | fromAltStack => exact keeps_fromAltStack
  | drop => exact keeps_drop
  | drop2 => exact keeps_drop2
  | dup => exact keeps_dup
  | dup2 => exact keeps_dup2
  | dup3 => exact keeps_dup3
  | over2 => exact keeps_over2
  | rot2 => exact keeps_rot2
  | swap2 => exact keeps_swap2
  | ifDup => exact keeps_ifDup
  | pushDepth => exact keeps_pushDepth hword
  | nip => exact keeps_nip
  | overTop => exact keeps_overTop
  | pickRoll => exact keeps_pickRoll byte
  | rot => exact keeps_rot
  | swapTop => exact keeps_swapTop
  | tuck => exact keeps_tuck
  | pushSize => exact keeps_pushSize
  | equal => exact keeps_equal byte
  | unaryNum => exact keeps_unaryNum byte
  | binaryNum => exact keeps_binaryNum byte
  | within => exact keeps_within
  | hash => exact keeps_hash byte
  | checkSig => exact keeps_checkSig byte
  | checkMultiSig => exact absurd rfl hother

/-- A handler that succeeds leaves the stacks within bounds and uses up one operation for every key. -/
theorem fits_of_run (hword : limits.maxStackSize < 2 ^ 64) {handler : Handler} {frame frame' : Frame}
    (hframe : frame.Fits limits count) (hcount : count ≤ env.limits.maxOps)
    (h : handler.run env byte frame = .ok () frame') :
    frame'.Fits limits (count + handler.keyCount env.flags frame) ∧
      count + handler.keyCount env.flags frame ≤ env.limits.maxOps := by
  by_cases hmulti : handler = .checkMultiSig
  · subst hmulti
    exact Action.fits_of_checkMultiSig hframe h
  · have hnone : handler.keyCount env.flags frame = 0 := by
      cases handler with
      | checkMultiSig => exact absurd rfl hmulti
      | _ => rfl
    rw [hnone]
    exact ⟨(keeps_run hword hmulti frame () frame' hframe h).1, hcount⟩

end Handler

end CoinScript
