import CoinScript.Proofs.Arithmetic

/-!
# Stack diagrams

The opcodes that shuffle take a few elements off the top of the main stack and leave some of them there, in
another order or more than once. Which ones, a diagram says; how deep the stack is makes no difference. This
module gives the diagrams and shows that the opcodes keep to them. Those that only change the order need no
room, and where there are too few elements nothing happens at all.
-/

namespace CoinScript

variable {env : Env} {op : Opcode} {before after rest elements : List Bytes}

/-! ## Diagrams -/

/-- The diagram of an opcode that shuffles: what it takes off the main stack and what it leaves there instead,
with the top at the right. The number that `OP_PICK` and `OP_ROLL` find on top says how many elements lie
above the one they copy or move. -/
inductive Opcode.Shuffles (env : Env) : Opcode → List Bytes → List Bytes → Prop where
  | drop (x : Bytes) : Shuffles env .opDrop [x] []
  | drop2 (x1 x2 : Bytes) : Shuffles env .op2Drop [x1, x2] []
  | dup (x : Bytes) : Shuffles env .opDup [x] [x, x]
  | dup2 (x1 x2 : Bytes) : Shuffles env .op2Dup [x1, x2] [x1, x2, x1, x2]
  | dup3 (x1 x2 x3 : Bytes) : Shuffles env .op3Dup [x1, x2, x3] [x1, x2, x3, x1, x2, x3]
  | ifDup_true (x : Bytes) (h : Element.isTrue x = true) : Shuffles env .opIfDup [x] [x, x]
  | ifDup_false (x : Bytes) (h : Element.isTrue x = false) : Shuffles env .opIfDup [x] [x]
  | nip (x1 x2 : Bytes) : Shuffles env .opNip [x1, x2] [x2]
  | tuck (x1 x2 : Bytes) : Shuffles env .opTuck [x1, x2] [x2, x1, x2]
  | overTop (x1 x2 : Bytes) : Shuffles env .opOver [x1, x2] [x1, x2, x1]
  | over2 (x1 x2 x3 x4 : Bytes) :
    Shuffles env .op2Over [x1, x2, x3, x4] [x1, x2, x3, x4, x1, x2]
  | swap (x1 x2 : Bytes) : Shuffles env .opSwap [x1, x2] [x2, x1]
  | swap2 (x1 x2 x3 x4 : Bytes) : Shuffles env .op2Swap [x1, x2, x3, x4] [x3, x4, x1, x2]
  | rot (x1 x2 x3 : Bytes) : Shuffles env .opRot [x1, x2, x3] [x2, x3, x1]
  | rot2 (x1 x2 x3 x4 x5 x6 : Bytes) :
    Shuffles env .op2Rot [x1, x2, x3, x4, x5, x6] [x3, x4, x5, x6, x1, x2]
  | pick (x : Bytes) (above : List Bytes) (top : Bytes) (h : env.Reads top above.length) :
    Shuffles env .opPick (x :: above ++ [top]) (x :: above ++ [x])
  | roll (x : Bytes) (above : List Bytes) (top : Bytes) (h : env.Reads top above.length) :
    Shuffles env .opRoll (x :: above ++ [top]) (above ++ [x])

namespace Opcode

/-- How many elements an opcode that shuffles needs. -/
def shuffled? : Opcode → Option Nat
  | .opDrop | .opDup | .opIfDup => some 1
  | .op2Drop | .op2Dup | .opNip | .opTuck | .opOver | .opSwap | .opPick | .opRoll => some 2
  | .op3Dup | .opRot => some 3
  | .op2Over | .op2Swap => some 4
  | .op2Rot => some 6
  | _ => none

/-- The opcodes that only change the order of elements. -/
def reordering : List Opcode := [.opSwap, .op2Swap, .opRot, .op2Rot, .opRoll]

/-- The opcodes that a number on top tells how deep to go. -/
def indexing : List Opcode := [.opPick, .opRoll]

/-- Unless it is told how deep to go, an opcode has a diagram for any elements, if there are as many as it
needs. -/
theorem exists_shuffles (hop : op.shuffled? = some before.length) (hfixed : op ∉ indexing) :
    ∃ after, op.Shuffles env before after := by
  cases op with
  | opDrop =>
    match before, hop with
    | [x], _ => exact ⟨_, .drop x⟩
  | op2Drop =>
    match before, hop with
    | [x1, x2], _ => exact ⟨_, .drop2 x1 x2⟩
  | opDup =>
    match before, hop with
    | [x], _ => exact ⟨_, .dup x⟩
  | op2Dup =>
    match before, hop with
    | [x1, x2], _ => exact ⟨_, .dup2 x1 x2⟩
  | op3Dup =>
    match before, hop with
    | [x1, x2, x3], _ => exact ⟨_, .dup3 x1 x2 x3⟩
  | opIfDup =>
    match before, hop with
    | [x], _ =>
      cases hx : Element.isTrue x with
      | true => exact ⟨_, .ifDup_true x hx⟩
      | false => exact ⟨_, .ifDup_false x hx⟩
  | opNip =>
    match before, hop with
    | [x1, x2], _ => exact ⟨_, .nip x1 x2⟩
  | opTuck =>
    match before, hop with
    | [x1, x2], _ => exact ⟨_, .tuck x1 x2⟩
  | opOver =>
    match before, hop with
    | [x1, x2], _ => exact ⟨_, .overTop x1 x2⟩
  | op2Over =>
    match before, hop with
    | [x1, x2, x3, x4], _ => exact ⟨_, .over2 x1 x2 x3 x4⟩
  | opSwap =>
    match before, hop with
    | [x1, x2], _ => exact ⟨_, .swap x1 x2⟩
  | op2Swap =>
    match before, hop with
    | [x1, x2, x3, x4], _ => exact ⟨_, .swap2 x1 x2 x3 x4⟩
  | opRot =>
    match before, hop with
    | [x1, x2, x3], _ => exact ⟨_, .rot x1 x2 x3⟩
  | op2Rot =>
    match before, hop with
    | [x1, x2, x3, x4, x5, x6], _ => exact ⟨_, .rot2 x1 x2 x3 x4 x5 x6⟩
  | opPick => exact absurd (by decide) hfixed
  | opRoll => exact absurd (by decide) hfixed
  | _ => cases hop

/-- A change of order moves a front part of the elements behind the others. -/
theorem Shuffles.perm (h : op.Shuffles env before after) (hop : op ∈ reordering) :
    after.Perm (if op = .opRoll then before.dropLast else before) := by
  cases h with
  | swap x1 x2 => exact @List.perm_append_comm _ [x2] [x1]
  | swap2 x1 x2 x3 x4 => exact @List.perm_append_comm _ [x3, x4] [x1, x2]
  | rot x1 x2 x3 => exact @List.perm_append_comm _ [x2, x3] [x1]
  | rot2 x1 x2 x3 x4 x5 x6 => exact @List.perm_append_comm _ [x3, x4, x5, x6] [x1, x2]
  | roll x above top _ =>
    rw [if_pos rfl, List.dropLast_concat]
    exact @List.perm_append_comm _ above [x]
  | _ => exact absurd hop (by decide)

theorem Shuffles.ne_nil (h : op.Shuffles env before after) : before ≠ [] := by
  cases h <;> simp

theorem isSome_handler? {least : Nat} (hop : op.shuffled? = some least) : op.handler?.isSome := by
  cases op <;> cases hop <;> rfl

theorem isSome_shuffled? : ∀ op ∈ reordering, op.shuffled?.isSome := by decide

theorem eq_opRoll : ∀ op ∈ reordering, op ∈ indexing → op = .opRoll := by decide

end Opcode

/-! ## Actions on given elements -/

namespace Action

variable {α β : Type} {frame : Frame} {n : Nat} {x y : Bytes}

theorem require_stacked (h : n ≤ elements.length) :
    require n (frame.stacked elements) = .ok () (frame.stacked elements) :=
  require_of_le h

theorem peekNth_stacked (h : elements[n]? = some x) :
    peekNth (n + 1) (frame.stacked elements) = .ok x (frame.stacked elements) := by
  simp only [peekNth, look, Stack.peekNth, Stack.nth?, Frame.elements_stacked, h]

theorem removeNth_stacked (h : elements[n]? = some x) :
    removeNth (n + 1) (frame.stacked elements) = .ok x (frame.stacked (elements.eraseIdx n)) := by
  simp only [removeNth, take, Stack.removeNth, Stack.nth?, Frame.elements_stacked, h, Stack.refill_eq,
    Nat.add_sub_cancel]
  rfl

theorem insertNth_stacked (hplace : n ≤ elements.length)
    (hroom : elements.length < frame.stack.capacity) :
    insertNth (n + 1) x (frame.stacked elements) = .ok () (frame.stacked (elements.insertIdx n x)) := by
  have hfull : ¬frame.stack.capacity ≤ elements.length := Nat.not_le.2 hroom
  have hthere : ¬(n + 1 = 0 ∨ elements.length + 1 < n + 1) := by omega
  simp only [insertNth, alter, take, Stack.insertNth, Frame.stacked, Stack.capacity_ofList,
    Stack.length_ofList, Stack.elements_ofList, if_neg hfull, if_neg hthere, Stack.refill_eq,
    Nat.add_sub_cancel, Except.map]

theorem swap_stacked {m : Nat} (hm : elements[m]? = some x) (hn : elements[n]? = some y) :
    swap (m + 1) (n + 1) (frame.stacked elements) =
      .ok () (frame.stacked ((elements.set m y).set n x)) := by
  simp only [swap, alter, take, Stack.swap, Stack.nth?, Frame.elements_stacked, hm, hn, Stack.refill_eq,
    Nat.add_sub_cancel, Except.map]
  rfl

theorem push_push_stacked (h : elements.length + 2 ≤ frame.stack.capacity) :
    (do push x; push y) (frame.stacked elements) = .ok () (frame.stacked (y :: x :: elements)) := by
  rw [bind_of_ok (push_stacked (Nat.lt_of_succ_lt h))]
  exact push_stacked h

/-! ## Opcodes on given elements -/

variable {x1 x2 x3 x4 x5 x6 : Bytes}

theorem drop_stacked : drop (frame.stacked (x :: rest)) = .ok () (frame.stacked rest) := by
  rw [drop, bind_of_ok (pop_of_cons (Frame.elements_stacked _ _)), Frame.stacked_stacked]
  rfl

theorem drop2_stacked : drop2 (frame.stacked (x2 :: x1 :: rest)) = .ok () (frame.stacked rest) := by
  rw [drop2, bind_of_ok (require_stacked (by simp)),
    bind_of_ok (pop_of_cons (Frame.elements_stacked _ _)), Frame.stacked_stacked]
  exact drop_stacked

theorem dup_stacked (h : rest.length + 2 ≤ frame.stack.capacity) :
    dup (frame.stacked (x :: rest)) = .ok () (frame.stacked (x :: x :: rest)) := by
  rw [dup, bind_of_ok (peekNth_stacked rfl)]
  exact push_stacked h

theorem dup2_stacked (h : rest.length + 4 ≤ frame.stack.capacity) :
    dup2 (frame.stacked (x2 :: x1 :: rest)) =
      .ok () (frame.stacked (x2 :: x1 :: x2 :: x1 :: rest)) := by
  rw [dup2, bind_of_ok (require_stacked (by simp)), bind_of_ok (peekNth_stacked rfl),
    bind_of_ok (peekNth_stacked rfl)]
  exact push_push_stacked h

theorem dup3_stacked (h : rest.length + 6 ≤ frame.stack.capacity) :
    dup3 (frame.stacked (x3 :: x2 :: x1 :: rest)) =
      .ok () (frame.stacked (x3 :: x2 :: x1 :: x3 :: x2 :: x1 :: rest)) := by
  rw [dup3, bind_of_ok (require_stacked (by simp)), bind_of_ok (peekNth_stacked rfl),
    bind_of_ok (peekNth_stacked rfl), bind_of_ok (peekNth_stacked rfl)]
  refine (bind_of_ok (push_stacked ?_)).trans (push_push_stacked h)
  exact Nat.lt_of_succ_lt (Nat.lt_of_succ_lt h)

theorem ifDup_stacked (h : (if Element.isTrue x then rest.length + 1 else rest.length) <
    frame.stack.capacity) :
    ifDup (frame.stacked (x :: rest)) =
      .ok () (frame.stacked (if Element.isTrue x then x :: x :: rest else x :: rest)) := by
  rw [ifDup, bind_of_ok (peekNth_stacked rfl)]
  split at h
  · rename_i hx
    rw [if_pos hx, if_pos hx]
    exact push_stacked h
  · rename_i hx
    rw [if_neg hx, if_neg hx]
    rfl

theorem nip_stacked : nip (frame.stacked (x2 :: x1 :: rest)) = .ok () (frame.stacked (x2 :: rest)) := by
  rw [nip, bind_of_ok (require_stacked (by simp)), bind_of_ok (removeNth_stacked rfl)]
  rfl

theorem tuck_stacked (h : rest.length + 3 ≤ frame.stack.capacity) :
    tuck (frame.stacked (x2 :: x1 :: rest)) = .ok () (frame.stacked (x2 :: x1 :: x2 :: rest)) := by
  rw [tuck, bind_of_ok (require_stacked (by simp)), bind_of_ok (peekNth_stacked rfl)]
  exact insertNth_stacked (by simp) h

theorem overTop_stacked (h : rest.length + 3 ≤ frame.stack.capacity) :
    overTop (frame.stacked (x2 :: x1 :: rest)) = .ok () (frame.stacked (x1 :: x2 :: x1 :: rest)) := by
  rw [overTop, bind_of_ok (peekNth_stacked rfl)]
  exact push_stacked h

theorem over2_stacked (h : rest.length + 6 ≤ frame.stack.capacity) :
    over2 (frame.stacked (x4 :: x3 :: x2 :: x1 :: rest)) =
      .ok () (frame.stacked (x2 :: x1 :: x4 :: x3 :: x2 :: x1 :: rest)) := by
  rw [over2, bind_of_ok (require_stacked (by simp)), bind_of_ok (peekNth_stacked rfl),
    bind_of_ok (peekNth_stacked rfl)]
  exact push_push_stacked h

theorem swapTop_stacked :
    swapTop (frame.stacked (x2 :: x1 :: rest)) = .ok () (frame.stacked (x1 :: x2 :: rest)) := by
  rw [swapTop, bind_of_ok (require_stacked (by simp))]
  exact swap_stacked rfl rfl

theorem swap2_stacked :
    swap2 (frame.stacked (x4 :: x3 :: x2 :: x1 :: rest)) =
      .ok () (frame.stacked (x2 :: x1 :: x4 :: x3 :: rest)) := by
  rw [swap2, bind_of_ok (require_stacked (by simp)), bind_of_ok (swap_stacked rfl rfl)]
  exact swap_stacked rfl rfl

theorem rot_stacked (h : rest.length + 3 ≤ frame.stack.capacity) :
    rot (frame.stacked (x3 :: x2 :: x1 :: rest)) =
      .ok () (frame.stacked (x1 :: x3 :: x2 :: rest)) := by
  rw [rot, bind_of_ok (require_stacked (by simp)), bind_of_ok (removeNth_stacked rfl)]
  exact push_stacked h

theorem rot2_stacked (h : rest.length + 6 ≤ frame.stack.capacity) :
    rot2 (frame.stacked (x6 :: x5 :: x4 :: x3 :: x2 :: x1 :: rest)) =
      .ok () (frame.stacked (x2 :: x1 :: x6 :: x5 :: x4 :: x3 :: rest)) := by
  -- The first removal moves the second element up to where the second removal finds it.
  rw [rot2, bind_of_ok (require_stacked (by simp)), bind_of_ok (removeNth_stacked rfl),
    bind_of_ok (removeNth_stacked rfl)]
  exact push_push_stacked h

/-! ## Opcodes told how deep to go -/

variable {byte : UInt8} {top : Bytes} {above below : List Bytes}

/-- The number is taken off the stack before the element that it tells is looked for. -/
theorem pickRoll_of_reads (hread : env.Reads top n) (h : n < below.length) :
    pickRoll env byte (frame.stacked (top :: below)) =
      (if byte = Opcode.opRoll.byte then (do push (← removeNth (n + 1)))
        else (do push (← peekNth (n + 1)))) (frame.stacked below) := by
  have hpop : popNum env (frame.stacked (top :: below)) = .ok (n : Int) (frame.stacked below) :=
    (popNum_of_cons (Frame.elements_stacked _ _) hread).trans (by rw [Frame.stacked_stacked])
  have hdepth : depth (frame.stacked below) = .ok below.length (frame.stacked below) := rfl
  have hthere : ¬((n : Int) < 0 ∨ below.length ≤ (n : Int).toNat) := by omega
  rw [pickRoll, bind_of_ok (require_stacked (by simp; omega)), bind_of_ok hpop, bind_of_ok hdepth,
    if_neg hthere, Int.toNat_natCast]

theorem pick_stacked (hread : env.Reads top above.length)
    (h : (above ++ x :: rest).length < frame.stack.capacity) :
    pickRoll env Opcode.opPick.byte (frame.stacked (top :: (above ++ x :: rest))) =
      .ok () (frame.stacked (x :: (above ++ x :: rest))) := by
  rw [pickRoll_of_reads hread (by simp), if_neg (by decide),
    bind_of_ok (peekNth_stacked (x := x) (by simp))]
  exact push_stacked h

theorem roll_stacked (hread : env.Reads top above.length)
    (h : (above ++ rest).length < frame.stack.capacity) :
    pickRoll env Opcode.opRoll.byte (frame.stacked (top :: (above ++ x :: rest))) =
      .ok () (frame.stacked (x :: (above ++ rest))) := by
  rw [pickRoll_of_reads hread (by simp), if_pos rfl,
    bind_of_ok (removeNth_stacked (x := x) (by simp)), Stack.eraseIdx_split]
  exact push_stacked h

end Action

/-- Whether the number on top of the main stack tells one of the elements below it. -/
def Frame.HasIndex (env : Env) (frame : Frame) : Prop :=
  ∃ (top : Bytes) (below : List Bytes) (n : Nat),
    frame.stack.elements = top :: below ∧ env.Reads top n ∧ n < below.length

namespace Action

variable {frame : Frame} {byte : UInt8}

/-- If the number does not tell an element, or is none, the failure is not that of a full stack. -/
theorem pickRoll_of_not_hasIndex (hlength : 2 ≤ frame.stack.length) (h : ¬frame.HasIndex env) :
    ∃ e last, pickRoll env byte frame = .error e last ∧ e ≠ .stackSize := by
  rw [pickRoll, bind_of_ok (require_of_le hlength)]
  cases hs : frame.stack.elements with
  | nil =>
    rw [frame.stack.length_eq, hs] at hlength
    exact absurd hlength (by decide)
  | cons top below =>
    cases hread : ScriptNum.decode env.flags.minimalData ScriptNum.operandSize top with
    | error e => exact ⟨.num e, _, bind_of_error (popNum_of_error hs hread), by simp⟩
    | ok n =>
      have hbad : n < 0 ∨ below.length ≤ n.toNat := by
        by_contra hgood
        obtain ⟨n, rfl⟩ := Int.eq_ofNat_of_zero_le (show 0 ≤ n by omega)
        exact h ⟨top, below, n, hs, hread, by omega⟩
      have hdepth : depth (frame.stacked below) = .ok below.length (frame.stacked below) := rfl
      refine ⟨.invalidStackOperation (.notFound n.toNat below.length), frame.stacked below, ?_, by simp⟩
      rw [bind_of_ok (popNum_of_cons hs hread), bind_of_ok hdepth, if_pos hbad]
      rfl

end Action

/-! ## Too few elements -/

namespace Action

variable {α β : Type} {frame : Frame}

/-- Where there are fewer elements, it fails at once and leaves everything as it was. -/
def Needs (count : Nat) (x : Action α) : Prop :=
  ∀ frame, frame.stack.length < count → ∃ e, x frame = .error (.invalidStackOperation e) frame

theorem needs_bind {count : Nat} {x : Action α} {f : α → Action β} (h : Needs count x) :
    Needs count (x >>= f) := by
  intro frame hshort
  obtain ⟨e, hrun⟩ := h frame hshort
  exact ⟨e, bind_of_error hrun⟩

theorem needs_require (count : Nat) : Needs count (require count) :=
  fun _ hshort => ⟨_, require_of_lt hshort⟩

theorem needs_pop : Needs 1 pop := fun _ hshort => ⟨_, pop_of_lt hshort⟩

theorem needs_peekNth (n : Nat) : Needs (n + 1) (peekNth (n + 1)) := by
  intro frame hshort
  have hnone : frame.stack.nth? (n + 1) = none := Stack.nth?_eq_none_iff.2 (.inr hshort)
  refine ⟨.notFound (n + 1) frame.stack.length, ?_⟩
  simp only [peekNth, look, Stack.peekNth, hnone]
  rfl

end Action

/-! ## Handlers -/

variable {handler : Handler} {frame : Frame} {least : Nat}

open CoinScript.Action in
theorem Handler.needs_run (hop : op.shuffled? = some least) (hhandler : op.handler? = some handler) :
    Needs least (handler.run env op.byte) := by
  cases op with
  | opDrop =>
    cases hop; cases hhandler
    exact needs_bind needs_pop
  | opDup | opIfDup =>
    cases hop; cases hhandler
    exact needs_bind (needs_peekNth 0)
  | opOver =>
    cases hop; cases hhandler
    exact needs_bind (needs_peekNth 1)
  | op2Drop | op2Dup | opNip | opTuck | opSwap | opPick | opRoll =>
    cases hop; cases hhandler
    exact needs_bind (needs_require 2)
  | op3Dup | opRot =>
    cases hop; cases hhandler
    exact needs_bind (needs_require 3)
  | op2Over | op2Swap =>
    cases hop; cases hhandler
    exact needs_bind (needs_require 4)
  | op2Rot =>
    cases hop; cases hhandler
    exact needs_bind (needs_require 6)
  | _ => cases hop

open CoinScript.Action in
/-- What lies deeper than the diagram stays in place. -/
theorem Handler.run_of_shuffles (h : op.Shuffles env before after)
    (hhandler : op.handler? = some handler)
    (hroom : after.length + rest.length ≤ frame.stack.capacity) :
    handler.run env op.byte (frame.stacked (before.reverse ++ rest)) =
      .ok () (frame.stacked (after.reverse ++ rest)) := by
  rw [Nat.add_comm] at hroom
  cases h with
  | drop x => cases hhandler; exact drop_stacked
  | drop2 x1 x2 => cases hhandler; exact drop2_stacked
  | dup x => cases hhandler; exact dup_stacked hroom
  | dup2 x1 x2 => cases hhandler; exact dup2_stacked hroom
  | dup3 x1 x2 x3 => cases hhandler; exact dup3_stacked hroom
  | ifDup_true x hx =>
    cases hhandler
    refine (ifDup_stacked ?_).trans (by rw [hx]; rfl)
    rw [hx]
    exact hroom
  | ifDup_false x hx =>
    cases hhandler
    refine (ifDup_stacked ?_).trans (by rw [hx]; rfl)
    rw [hx]
    exact hroom
  | nip x1 x2 => cases hhandler; exact nip_stacked
  | tuck x1 x2 => cases hhandler; exact tuck_stacked hroom
  | overTop x1 x2 => cases hhandler; exact overTop_stacked hroom
  | over2 x1 x2 x3 x4 => cases hhandler; exact over2_stacked hroom
  | swap x1 x2 => cases hhandler; exact swapTop_stacked
  | swap2 x1 x2 x3 x4 => cases hhandler; exact swap2_stacked
  | rot x1 x2 x3 => cases hhandler; exact rot_stacked hroom
  | rot2 x1 x2 x3 x4 x5 x6 => cases hhandler; exact rot2_stacked hroom
  | pick x above top hread =>
    cases hhandler
    rw [← above.length_reverse] at hread
    have hrun : Handler.pickRoll.run env Opcode.opPick.byte
        (frame.stacked (top :: (above.reverse ++ x :: rest))) =
          .ok () (frame.stacked (x :: (above.reverse ++ x :: rest))) :=
      pick_stacked hread (by simp at hroom ⊢; omega)
    simpa using hrun
  | roll x above top hread =>
    cases hhandler
    rw [← above.length_reverse] at hread
    have hrun : Handler.pickRoll.run env Opcode.opRoll.byte
        (frame.stacked (top :: (above.reverse ++ x :: rest))) =
          .ok () (frame.stacked (x :: (above.reverse ++ rest))) :=
      roll_stacked hread (by simp at hroom ⊢; omega)
    simpa using hrun

/-! ## Whole stacks -/

theorem Handler.run_of_diagram (h : op.Shuffles env before after)
    (hhandler : op.handler? = some handler) (hs : frame.stack.elements = before.reverse ++ rest)
    (hroom : after.length + rest.length ≤ frame.stack.capacity) :
    handler.run env op.byte frame = .ok () (frame.stacked (after.reverse ++ rest)) := by
  have hrun : handler.run env op.byte (frame.stacked (before.reverse ++ rest)) =
      .ok () (frame.stacked (after.reverse ++ rest)) := run_of_shuffles h hhandler hroom
  rwa [Frame.stacked_of_elements hs] at hrun

/-- With as many elements as the opcode needs, a diagram applies to the top of the stack. -/
theorem Frame.exists_shuffles (hop : op.shuffled? = some least) (hlength : least ≤ frame.stack.length)
    (hindex : op ∈ Opcode.indexing → frame.HasIndex env) :
    ∃ before after rest, op.Shuffles env before after ∧
      frame.stack.elements = before.reverse ++ rest := by
  by_cases hfixed : op ∈ Opcode.indexing
  · obtain ⟨top, below, n, hs, hread, hn⟩ := hindex hfixed
    have hbelow : below.take n ++ below[n] :: below.drop (n + 1) = below := by
      rw [← List.drop_eq_getElem_cons hn, List.take_append_drop]
    have habove : env.Reads top (below.take n).reverse.length := by
      rw [List.length_reverse, List.length_take_of_le (Nat.le_of_lt hn)]
      exact hread
    have hstack : frame.stack.elements =
        (below[n] :: (below.take n).reverse ++ [top]).reverse ++ below.drop (n + 1) := by
      rw [hs, List.reverse_concat, List.reverse_cons, List.reverse_reverse, List.cons_append,
        List.append_assoc, List.singleton_append, hbelow]
    rcases List.mem_pair.1 hfixed with rfl | rfl
    · exact ⟨_, _, _, .pick _ _ top habove, hstack⟩
    · exact ⟨_, _, _, .roll _ _ top habove, hstack⟩
  · rw [frame.stack.length_eq] at hlength
    have hbefore : (frame.stack.elements.take least).reverse.length = least := by
      rw [List.length_reverse, List.length_take_of_le hlength]
    obtain ⟨after, h⟩ : ∃ after, op.Shuffles env (frame.stack.elements.take least).reverse after :=
      Opcode.exists_shuffles (hbefore.symm ▸ hop) hfixed
    refine ⟨_, after, frame.stack.elements.drop least, h, ?_⟩
    rw [List.reverse_reverse, List.take_append_drop]

/-- An opcode that only changes the order does not need room. -/
theorem Handler.run_of_reordering (hop : op ∈ Opcode.reordering)
    (hhandler : op.handler? = some handler) (hroom : frame.stack.length ≤ frame.stack.capacity) :
    (∃ e last, handler.run env op.byte frame = .error e last ∧ e ≠ .stackSize) ∨
      ∃ elements, handler.run env op.byte frame = .ok () (frame.stacked elements) ∧
        elements.Perm (if op = .opRoll then frame.stack.elements.tail else frame.stack.elements) := by
  obtain ⟨least, hleast⟩ := Option.isSome_iff_exists.1 (Opcode.isSome_shuffled? op hop)
  by_cases hlength : least ≤ frame.stack.length
  · by_cases hindex : op ∈ Opcode.indexing → frame.HasIndex env
    · right
      obtain ⟨before, after, rest, h, hs⟩ := frame.exists_shuffles hleast hlength hindex
      have hperm := h.perm hop
      have hlength : after.length ≤ before.length := by
        rw [hperm.length_eq]
        split
        · exact (List.dropLast_sublist before).length_le
        · exact Nat.le_refl _
      refine ⟨after.reverse ++ rest, run_of_diagram h hhandler hs ?_, ?_⟩
      · rw [frame.stack.length_eq, hs, List.length_append, List.length_reverse] at hroom
        omega
      · have hall : (if op = .opRoll then frame.stack.elements.tail else frame.stack.elements) =
            (if op = .opRoll then before.dropLast else before).reverse ++ rest := by
          rw [hs]
          split
          · rw [List.tail_append_of_ne_nil (List.reverse_ne_nil_iff.2 h.ne_nil), List.tail_reverse]
          · rfl
        rw [hall]
        exact ((List.reverse_perm _).trans (hperm.trans (List.reverse_perm _).symm)).append_right rest
    · left
      obtain ⟨hfixed, hnone⟩ := Classical.not_imp.1 hindex
      obtain rfl : op = .opRoll := Opcode.eq_opRoll op hop hfixed
      cases hhandler
      cases hleast
      exact Action.pickRoll_of_not_hasIndex hlength hnone
  · left
    obtain ⟨e, hrun⟩ := needs_run hleast hhandler frame (Nat.lt_of_not_le hlength)
    exact ⟨_, _, hrun, by simp⟩

/-- An element that is put aside and taken back is where it was. -/
theorem Action.toAltStack_fromAltStack {top : Bytes} (hs : frame.stack.elements = top :: rest)
    (hroom : frame.stack.length ≤ frame.stack.capacity)
    (halt : frame.altStack.length < frame.altStack.capacity) :
    (do toAltStack; fromAltStack) frame = .ok () frame := by
  rw [frame.stack.length_eq, hs] at hroom
  let aside : Frame :=
    { frame.stacked rest with altStack := .ofList (top :: frame.altStack.elements) frame.altStack.capacity }
  have hput : toAltStack frame = .ok () aside := by
    rw [toAltStack, bind_of_ok (pop_of_cons hs)]
    simp only [altPush, Frame.stacked, Stack.push_eq, if_pos halt, aside]
  have htake : altPop aside = .ok top (frame.stacked rest) := by
    have htop : aside.altStack.pop = .ok (top, frame.altStack) := by
      rw [Stack.pop_of_cons rfl]
      exact congrArg (fun stack => Except.ok (top, stack)) (Stack.ofList_elements frame.altStack)
    simp only [altPop, htop]
    rfl
  rw [bind_of_ok hput, fromAltStack, bind_of_ok htake, push_stacked hroom,
    Frame.stacked_of_elements hs]

/-- The opcodes that shuffle keep to their diagrams. With too few elements an opcode fails with an invalid
operation on the stack and changes nothing. Otherwise a diagram applies to the elements on top, unless the
opcode has to be told how deep to go and there is no such depth. Where a diagram applies, and what it leaves
fits on the stack, the opcode does exactly what the diagram says, whatever lies deeper. The opcodes that only
change the order of elements never find the stack full, and if they succeed they leave the same elements,
but for the number that tells `OP_ROLL` how deep to go. Putting an element on the alternative stack and
taking it back changes nothing. That the stack holds no more than it can is true of every stack that
operations have led to. -/
theorem opcodes_keep_to_diagrams {env : Env} {frame : Frame}
    (hroom : frame.stack.length ≤ frame.stack.capacity) :
    (∀ op least, op.shuffled? = some least → ∃ handler,
      OpcodeTable.standard.handler? op.byte = some handler ∧
      (frame.stack.length < least → ∃ e,
        handler.run env op.byte frame = .error (.invalidStackOperation e) frame) ∧
      (least ≤ frame.stack.length → (op ∈ Opcode.indexing → frame.HasIndex env) →
        ∃ before after rest, op.Shuffles env before after ∧
          frame.stack.elements = before.reverse ++ rest) ∧
      (∀ before after rest, op.Shuffles env before after →
        frame.stack.elements = before.reverse ++ rest →
        after.length + rest.length ≤ frame.stack.capacity →
        handler.run env op.byte frame = .ok () (frame.stacked (after.reverse ++ rest))) ∧
      (op ∈ Opcode.reordering →
        (∃ e last, handler.run env op.byte frame = .error e last ∧ e ≠ .stackSize) ∨
          ∃ elements, handler.run env op.byte frame = .ok () (frame.stacked elements) ∧
            elements.Perm
              (if op = .opRoll then frame.stack.elements.tail else frame.stack.elements))) ∧
    ∃ aside back : Handler,
      OpcodeTable.standard.handler? Opcode.opToAltStack.byte = some aside ∧
      OpcodeTable.standard.handler? Opcode.opFromAltStack.byte = some back ∧
      (frame.stack.elements ≠ [] → frame.altStack.length < frame.altStack.capacity →
        (do aside.run env Opcode.opToAltStack.byte; back.run env Opcode.opFromAltStack.byte) frame =
          .ok () frame) := by
  refine ⟨?_, .toAltStack, .fromAltStack, rfl, rfl, ?_⟩
  · intro op least hop
    obtain ⟨handler, hhandler⟩ := Option.isSome_iff_exists.1 (Opcode.isSome_handler? hop)
    refine ⟨handler, ?_, ?_, ?_, ?_, ?_⟩
    · rw [OpcodeTable.standard_byte, hhandler]
    · exact Handler.needs_run hop hhandler frame
    · exact Frame.exists_shuffles hop
    · intro before after rest h hs
      exact Handler.run_of_diagram h hhandler hs
    · intro hreorder
      exact Handler.run_of_reordering hreorder hhandler hroom
  · intro hne halt
    obtain ⟨top, rest, hs⟩ := List.exists_cons_of_ne_nil hne
    exact Action.toAltStack_fromAltStack hs hroom halt

/-- An element moved to the top of a full stack from below two others, and put aside and back. -/
theorem opcodes_keep_to_diagrams_full_stack :
    let env : Env := { sighash := sha256 [] }
    let frame : Frame := { stack := .ofList [[2], [0xaa], [0xbb], [0xcc], [0xdd]] 5, altStack := .new 5 }
    frame.stack.length ≤ frame.stack.capacity ∧
      ∃ roll aside back : Handler,
        OpcodeTable.standard.handler? Opcode.opRoll.byte = some roll ∧
        OpcodeTable.standard.handler? Opcode.opToAltStack.byte = some aside ∧
        OpcodeTable.standard.handler? Opcode.opFromAltStack.byte = some back ∧
        roll.run env Opcode.opRoll.byte frame =
          .ok () { stack := .ofList [[0xcc], [0xaa], [0xbb], [0xdd]] 5, altStack := .new 5 } ∧
        (do aside.run env Opcode.opToAltStack.byte; back.run env Opcode.opFromAltStack.byte) frame =
          .ok () frame := by
  intro env frame
  have hroom : frame.stack.length ≤ frame.stack.capacity := by decide
  obtain ⟨hshuffles, aside, back, haside, hback, hsame⟩ := @opcodes_keep_to_diagrams env frame hroom
  obtain ⟨roll, hroll, -, -, hdiagram, -⟩ := hshuffles .opRoll 2 rfl
  have hmoved := hdiagram _ _ [[0xdd]] (.roll [0xcc] [[0xbb], [0xaa]] [2] (by decide)) rfl (by decide)
  exact ⟨hroom, roll, aside, back, hroll, haside, hback, hmoved, hsame (by decide) (by decide)⟩

end CoinScript
