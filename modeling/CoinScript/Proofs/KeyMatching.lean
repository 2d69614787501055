import CoinScript.Proofs.Success
import Mathlib.Data.List.NodupEquivFin

/-!
# Matching signatures with keys

The check of several signatures goes through signatures and keys together: a key that does not verify the
signature at hand is dropped for good, and one that does is dropped along with it. So no key is tried
twice. The main result is that nothing is missed that way: the check succeeds exactly if there is some
choice of keys for the signatures, in the same order, that the checker accepts.
-/

namespace CoinScript

/-! ## Choices in order -/

section

variable {α β : Type} {R : α → β → Prop} {a : α} {b : β} {as : List α} {bs : List β}

theorem sublistForall₂_tail (h : List.SublistForall₂ R (a :: as) bs) :
    List.SublistForall₂ R as bs := by
  obtain ⟨chosen, hall, hsub⟩ := List.sublistForall₂_iff.1 h
  obtain ⟨b, rest, -, hrest, rfl⟩ := List.forall₂_cons_left_iff.1 hall
  exact List.sublistForall₂_iff.2 ⟨rest, hrest, (List.sublist_cons_self b rest).trans hsub⟩

/-- The first one that fits can be taken: whatever is chosen in its place comes later. -/
theorem sublistForall₂_cons_cons_iff (h : R a b) :
    List.SublistForall₂ R (a :: as) (b :: bs) ↔ List.SublistForall₂ R as bs := by
  refine ⟨fun hchoice => ?_, .cons h⟩
  cases hchoice with
  | cons _ hrest => exact hrest
  | cons_right hlater => exact sublistForall₂_tail hlater

/-- One that does not fit can be left out. -/
theorem sublistForall₂_cons_right_iff (h : ¬R a b) :
    List.SublistForall₂ R (a :: as) (b :: bs) ↔ List.SublistForall₂ R (a :: as) bs := by
  refine ⟨fun hchoice => ?_, .cons_right⟩
  cases hchoice with
  | cons hfits _ => exact absurd hfits h
  | cons_right hlater => exact hlater

/-- A choice in order is a strictly increasing map of positions. -/
theorem sublistForall₂_iff_strictMono :
    List.SublistForall₂ R as bs ↔
      ∃ f : Fin as.length → Fin bs.length, StrictMono f ∧ ∀ i, R as[i] bs[f i] := by
  rw [List.sublistForall₂_iff]
  constructor
  · rintro ⟨chosen, hall, hsub⟩
    obtain ⟨hlength, hfits⟩ := List.forall₂_iff_get.1 hall
    obtain ⟨f, hf⟩ := List.sublist_iff_exists_fin_orderEmbedding_get_eq.1 hsub
    refine ⟨fun i => f (i.cast hlength), fun i j hij => f.strictMono hij, fun i => ?_⟩
    have hi := hfits i i.isLt (hlength ▸ i.isLt)
    rw [hf] at hi
    exact hi
  · rintro ⟨f, hmono, hfits⟩
    refine ⟨List.ofFn fun i => bs[f i], ?_, ?_⟩
    · refine List.forall₂_iff_get.2 ⟨List.length_ofFn.symm, fun i hi _ => ?_⟩
      simpa using hfits ⟨i, hi⟩
    · rw [List.sublist_iff_exists_fin_orderEmbedding_get_eq]
      refine ⟨(Fin.castOrderIso List.length_ofFn).toOrderEmbedding.trans
        (OrderEmbedding.ofStrictMono f hmono), fun i => ?_⟩
      rw [List.get_ofFn]
      rfl

end

/-! ## Signatures and keys -/

/-- Whether the checker accepts a signature under a key. -/
def Env.Accepts (env : Env) (sig key : Bytes) : Prop :=
  env.checker.checkSig sig key env.sighash = true

instance (env : Env) (sig key : Bytes) : Decidable (env.Accepts sig key) :=
  inferInstanceAs (Decidable (_ = true))

/-- Whether all signatures are accepted under keys that are chosen in the same order. -/
def Env.Signed (env : Env) (sigs keys : List Bytes) : Prop :=
  ∃ f : Fin sigs.length → Fin keys.length, StrictMono f ∧ ∀ i, env.Accepts sigs[i] keys[f i]

/-- The questions about signatures under keys, one after the other. -/
def Env.questions (env : Env) (sigs keys : List Bytes) : List Query :=
  List.zipWith (fun sig key => .signature sig key env.sighash) sigs keys

theorem Env.questions_cons_cons (env : Env) (sig : Bytes) (sigs : List Bytes) (key : Bytes)
    (keys : List Bytes) :
    env.questions (sig :: sigs) (key :: keys) =
      .signature sig key env.sighash :: env.questions sigs keys := rfl

namespace Frame

/-- The frame after more questions have been asked. -/
def asking (frame : Frame) (queries : List Query) : Frame :=
  { frame with asked := queries.reverse ++ frame.asked }

theorem asking_cons (frame : Frame) (query : Query) (queries : List Query) :
    frame.asking (query :: queries) = (frame.asking [query]).asking queries := by
  simp [asking]

theorem queries_asking (frame : Frame) (queries : List Query) :
    (frame.asking queries).queries = frame.queries ++ queries := by
  simp [asking, Frame.queries]

end Frame

namespace Action

variable {env : Env} {frame : Frame} {sigs keys : List Bytes}

/-- With both encodings allowed, the answer is that of the checker. -/
theorem checkSignature_of_encodings {sig key : Bytes}
    (hsig : Signature.checkEncoding env.flags sig = .ok ())
    (hkey : Signature.checkKeyEncoding env.flags key = .ok ()) :
    checkSignature env sig key frame =
      .ok (env.checker.checkSig sig key env.sighash)
        (frame.asking [.signature sig key env.sighash]) := by
  unfold checkSignature
  rw [hsig, hkey]
  rfl

/-- The search for a key and the rest of the search in one: a key is dropped in any case, a signature
only if the key verifies it. -/
theorem matchKeys_cons_cons (env : Env) (sig : Bytes) (sigs : List Bytes) (key : Bytes)
    (keys : List Bytes) :
    matchKeys env (sig :: sigs) (key :: keys) = (do
      if ← checkSignature env sig key then matchKeys env sigs keys
      else matchKeys env (sig :: sigs) keys) := by
  simp only [matchKeys, findKey]
  funext frame
  simp only [bind, EStateM.bind]
  cases checkSignature env sig key frame with
  | error e next => rfl
  | ok verified next => cases verified <;> rfl

/-- If all encodings are allowed, the search comes to an end. It has found keys for all signatures if and
only if some choice of keys verifies them. The questions asked are about the keys in turn, each at most
once. -/
theorem matchKeys_of_encodings (hsigs : ∀ sig ∈ sigs, Signature.checkEncoding env.flags sig = .ok ())
    (hkeys : ∀ key ∈ keys, Signature.checkKeyEncoding env.flags key = .ok ()) :
    ∃ success tried, matchKeys env sigs keys frame =
        .ok success (frame.asking (env.questions tried keys)) ∧
      (success = true ↔ List.SublistForall₂ env.Accepts sigs keys) ∧
      tried.length ≤ keys.length ∧ tried ⊆ sigs := by
  -- One key is dropped in each round, so the induction is on the keys.
  induction keys generalizing sigs frame with
  | nil =>
    cases sigs with
    | nil => exact ⟨true, [], rfl, by simp [List.SublistForall₂.nil], by simp, by simp⟩
    | cons sig sigs => exact ⟨false, [], rfl, by simp [List.sublistForall₂_iff], by simp, by simp⟩
  | cons key keys ih =>
    cases sigs with
    | nil => exact ⟨true, [], rfl, by simp [List.SublistForall₂.nil], by simp, by simp⟩
    | cons sig sigs =>
      have hrest : ∀ other ∈ sigs, Signature.checkEncoding env.flags other = .ok () :=
        fun other hother => hsigs other (List.mem_cons_of_mem sig hother)
      have hothers : ∀ other ∈ keys, Signature.checkKeyEncoding env.flags other = .ok () :=
        fun other hother => hkeys other (List.mem_cons_of_mem key hother)
      rw [matchKeys_cons_cons, bind_of_ok (checkSignature_of_encodings
        (hsigs sig List.mem_cons_self) (hkeys key List.mem_cons_self))]
      by_cases haccepts : env.checker.checkSig sig key env.sighash = true
      · obtain ⟨success, tried, hrun, hiff, hlength, hsub⟩ := ih hrest hothers
        refine ⟨success, sig :: tried, ?_, ?_, Nat.succ_le_succ hlength,
          List.cons_subset_cons sig hsub⟩
        · rw [if_pos haccepts, hrun, Env.questions_cons_cons, ← Frame.asking_cons]
        · rw [hiff, sublistForall₂_cons_cons_iff (R := env.Accepts) haccepts]
      · obtain ⟨success, tried, hrun, hiff, hlength, hsub⟩ := ih hsigs hothers
        refine ⟨success, sig :: tried, ?_, ?_, Nat.succ_le_succ hlength,
          List.cons_subset.2 ⟨List.mem_cons_self, hsub⟩⟩
        · rw [if_neg haccepts, hrun, Env.questions_cons_cons, ← Frame.asking_cons]
        · rw [hiff, sublistForall₂_cons_right_iff (R := env.Accepts) haccepts]

/-! ## Operands -/

theorem popMany_of_append {elements rest : List Bytes}
    (h : frame.stack.elements = elements ++ rest) :
    popMany elements.length frame = .ok elements (frame.stacked rest) := by
  induction elements generalizing frame with
  | nil =>
    rw [Frame.stacked_of_elements (show frame.stack.elements = rest from h)]
    rfl
  | cons first elements ih =>
    have hothers : popMany elements.length (frame.stacked (elements ++ rest)) =
        .ok elements (frame.stacked rest) := by
      rw [ih (Frame.elements_stacked _ _), Frame.stacked_stacked]
    rw [List.length_cons, popMany, bind_of_ok (pop_of_cons h)]
    exact bind_of_ok hothers

theorem charge_of_le {limits : Limits} {n : Nat} (h : frame.opCount + n ≤ limits.maxOps) :
    charge limits n frame = .ok () { frame with opCount := frame.opCount + n } := by
  simp [charge, Nat.not_lt.2 h]

theorem popKeys_of_append {count : Bytes} {rest : List Bytes}
    (h : frame.stack.elements = count :: (keys.reverse ++ rest))
    (hcount : ScriptNum.decode env.flags.minimalData ScriptNum.operandSize count = .ok keys.length)
    (hmax : keys.length ≤ maxMultiSigKeys) (hops : frame.opCount + keys.length ≤ env.limits.maxOps) :
    popKeys env frame =
      .ok keys { frame.stacked rest with opCount := frame.opCount + keys.length } := by
  have hrange : ¬((keys.length : Int) < 0 ∨ (maxMultiSigKeys : Int) < keys.length) := by omega
  let charged : Frame := { frame with opCount := frame.opCount + keys.length }
  let full : Frame := charged.stacked (keys.reverse ++ rest)
  have hcharge : charge env.limits keys.length (frame.stacked (keys.reverse ++ rest)) =
      .ok () full := charge_of_le hops
  have hrequire : require keys.length full = .ok () full :=
    require_of_le (by simp [full, Frame.stacked])
  have hpop : popMany keys.length full = .ok keys.reverse (charged.stacked rest) := by
    rw [← keys.length_reverse, popMany_of_append rfl, Frame.stacked_stacked]
  rw [popKeys, bind_of_ok (popNum_of_cons h hcount), if_neg hrange]
  simp only [Int.toNat_natCast]
  rw [bind_of_ok hcharge, bind_of_ok hrequire, bind_of_ok hpop, List.reverse_reverse]
  rfl

theorem popSigs_of_append {count : Bytes} {rest : List Bytes} {keyCount : Nat}
    (h : frame.stack.elements = count :: (sigs.reverse ++ rest))
    (hcount : ScriptNum.decode env.flags.minimalData ScriptNum.operandSize count = .ok sigs.length)
    (hle : sigs.length ≤ keyCount) : popSigs env keyCount frame = .ok sigs (frame.stacked rest) := by
  have hrange : ¬((sigs.length : Int) < 0 ∨ (keyCount : Int) < sigs.length) := by omega
  let full : Frame := frame.stacked (sigs.reverse ++ rest)
  have hrequire : require sigs.length full = .ok () full :=
    require_of_le (by simp [full, Frame.stacked])
  have hpop : popMany sigs.length full = .ok sigs.reverse (frame.stacked rest) := by
    rw [← sigs.length_reverse, popMany_of_append rfl, Frame.stacked_stacked]
  rw [popSigs, bind_of_ok (popNum_of_cons h hcount), if_neg hrange]
  simp only [Int.toNat_natCast]
  rw [bind_of_ok hrequire, bind_of_ok hpop, List.reverse_reverse]
  rfl

theorem popDummy_of_cons {dummy : Bytes} {rest : List Bytes}
    (h : frame.stack.elements = dummy :: rest) (hdummy : env.flags.nullDummy → dummy = []) :
    popDummy env frame = .ok () (frame.stacked rest) := by
  have hallowed : ¬(env.flags.nullDummy ∧ dummy ≠ []) := fun hrule => hrule.2 (hdummy hrule.1)
  rw [popDummy, bind_of_ok (pop_of_cons h), if_neg hallowed]
  rfl

end Action

/-- On a stack with all operands, from bottom to top an element of no use, the signatures, their number,
the keys and their number, the check of several signatures succeeds. In place of the operands it leaves
whether the checker accepts the signatures under keys that are chosen in the same order. Each key uses up
an operation, and it is asked about in its turn or not at all. That the stack holds no more than it can
is true of every stack that operations have led to. -/
theorem checkMultiSig_signed {env : Env} {frame : Frame} {rest sigs keys : List Bytes}
    {dummy sigCount keyCount : Bytes}
    (hstack : frame.stack.elements.reverse =
      rest ++ dummy :: sigs ++ sigCount :: keys ++ [keyCount])
    (hroom : frame.stack.length ≤ frame.stack.capacity)
    (hkeyCount : ScriptNum.decode env.flags.minimalData ScriptNum.operandSize keyCount =
      .ok keys.length)
    (hsigCount : ScriptNum.decode env.flags.minimalData ScriptNum.operandSize sigCount =
      .ok sigs.length)
    (hle : sigs.length ≤ keys.length) (hmax : keys.length ≤ Action.maxMultiSigKeys)
    (hops : frame.opCount + keys.length ≤ env.limits.maxOps)
    (hdummy : env.flags.nullDummy → dummy = [])
    (hsigs : ∀ sig ∈ sigs, Signature.checkEncoding env.flags sig = .ok ())
    (hkeys : ∀ key ∈ keys, Signature.checkKeyEncoding env.flags key = .ok ()) :
    ∃ frame' top tried,
      Action.checkMultiSig env Opcode.opCheckMultiSig.byte frame = .ok () frame' ∧
      frame'.stack.elements.reverse = rest ++ [top] ∧
      frame'.stack.capacity = frame.stack.capacity ∧
      (env.Signed sigs keys ∧ top = [0x01] ∨ ¬env.Signed sigs keys ∧ top = []) ∧
      frame'.altStack = frame.altStack ∧
      frame'.opCount = frame.opCount + keys.length ∧
      frame'.queries = frame.queries ++ env.questions tried keys ∧
      tried.length ≤ keys.length ∧ tried ⊆ sigs := by
  have helements : frame.stack.elements =
      keyCount :: (keys.reverse ++ sigCount :: (sigs.reverse ++ dummy :: rest.reverse)) := by
    rw [← frame.stack.elements.reverse_reverse, hstack]
    simp
  have hfits : rest.reverse.length < frame.stack.capacity := by
    rw [frame.stack.length_eq, helements] at hroom
    simp only [List.length_cons, List.length_append] at hroom
    omega
  have hbyte : Opcode.opCheckMultiSig.byte ≠ Opcode.opCheckMultiSigVerify.byte := by decide
  -- The operands go off the stack one after the other, and only the keys use up operations.
  let charged : Frame := { frame with opCount := frame.opCount + keys.length }
  let below : List Bytes := sigCount :: (sigs.reverse ++ dummy :: rest.reverse)
  have hpopKeys : Action.popKeys env frame = .ok keys (charged.stacked below) :=
    Action.popKeys_of_append helements hkeyCount hmax hops
  have hpopSigs : Action.popSigs env keys.length (charged.stacked below) =
      .ok sigs (charged.stacked (dummy :: rest.reverse)) := by
    rw [Action.popSigs_of_append (Frame.elements_stacked _ _) hsigCount hle, Frame.stacked_stacked]
  have hpopDummy : Action.popDummy env (charged.stacked (dummy :: rest.reverse)) =
      .ok () (charged.stacked rest.reverse) := by
    rw [Action.popDummy_of_cons (Frame.elements_stacked _ _) hdummy, Frame.stacked_stacked]
  obtain ⟨success, tried, hmatch, hiff, hlength, hsub⟩ :
      ∃ success tried, Action.matchKeys env sigs keys (charged.stacked rest.reverse) =
          .ok success ((charged.asking (env.questions tried keys)).stacked rest.reverse) ∧
        (success = true ↔ List.SublistForall₂ env.Accepts sigs keys) ∧
        tried.length ≤ keys.length ∧ tried ⊆ sigs :=
    Action.matchKeys_of_encodings hsigs hkeys
  refine ⟨(charged.asking (env.questions tried keys)).stacked
    (Element.ofBool success :: rest.reverse), Element.ofBool success, tried, ?_, by simp, rfl, ?_,
    rfl, rfl, Frame.queries_asking frame _, hlength, hsub⟩
  · rw [Action.checkMultiSig, Action.bind_of_ok hpopKeys, Action.bind_of_ok hpopSigs,
      Action.bind_of_ok hpopDummy, Action.bind_of_ok hmatch, Action.concludeCheck, if_neg hbyte]
    exact Action.push_stacked hfits
  · rw [Env.Signed, ← sublistForall₂_iff_strictMono, ← hiff]
    cases success with
    | true => exact .inl ⟨rfl, rfl⟩
    | false => exact .inr ⟨by simp, rfl⟩

/-- Two signatures that are accepted under the first and the last of three keys. -/
theorem checkMultiSig_signed_two_of_three :
    ∃ frame', Action.checkMultiSig
        { flags := { nullDummy := true, minimalData := true }
          checker := ⟨fun sig key _ => sig = key, fun _ => false⟩
          sighash := sha256 [] }
        Opcode.opCheckMultiSig.byte
        { stack := .ofList [[3], [4], [3], [2], [2], [4], [2], [], [7]] 1000
          altStack := .new 1000 } = .ok () frame' ∧
      frame'.stack.elements.reverse = [[7], [1]] ∧ frame'.opCount = 3 := by
  let env : Env :=
    { flags := { nullDummy := true, minimalData := true }
      checker := ⟨fun sig key _ => sig = key, fun _ => false⟩
      sighash := sha256 [] }
  let frame : Frame :=
    { stack := .ofList [[3], [4], [3], [2], [2], [4], [2], [], [7]] 1000
      altStack := .new 1000 }
  have hstack : frame.stack.elements.reverse =
      [[7]] ++ [] :: [[2], [4]] ++ [2] :: [[2], [3], [4]] ++ [[3]] := rfl
  have hsigned : env.Signed [[2], [4]] [[2], [3], [4]] := by
    let f : Fin 2 → Fin 3 := fun i => ⟨2 * i, by omega⟩
    have hmono : StrictMono f := by
      intro i j hij
      simp only [f, Fin.lt_def] at hij ⊢
      omega
    exact ⟨f, hmono, by decide⟩
  obtain ⟨frame', top, tried, hrun, hafter, -, htop, -, hops, -⟩ :=
    @checkMultiSig_signed env frame [[7]] [[2], [4]] [[2], [3], [4]] [] [2] [3] hstack (by decide)
      rfl rfl (by decide) (by decide) (by decide) (fun _ => rfl) (by decide) (by decide)
  refine ⟨frame', hrun, ?_, hops⟩
  rcases htop with ⟨-, rfl⟩ | ⟨hunsigned, -⟩
  · exact hafter
  · exact absurd hsigned hunsigned

end CoinScript
