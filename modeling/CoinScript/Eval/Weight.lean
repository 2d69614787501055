import CoinScript.Eval.Machine

/-!
# Weights of programs

A command weighs as many bytes as its shortest word could have, so a script that is read from a body
weighs no more than the body. What bounds a run is the weight of the entries in front of the first
counted opcode.
-/

namespace CoinScript

def Command.weight : Command → Nat
  | .opcode _ => 1
  | .push data => data.length + 1

def Script.weight : Script → Nat
  | [] => 0
  | command :: rest => command.weight + weight rest

namespace Entry

def weight : Entry → Nat
  | .command c => c.weight
  | .witness data => data.length + 1

/-- Whether an entry counts against the budget of operations. -/
def isCounted : Entry → Bool
  | .command (.opcode byte) => Opcode.isCounted byte
  | _ => false

/-- The weight of the entries in front of the first counted one. -/
def leadWeight : List Entry → Nat
  | [] => 0
  | entry :: rest => if entry.isCounted then 0 else entry.weight + leadWeight rest

/-- Entries that are added behind and begin with a counted one change nothing. -/
theorem leadWeight_append_counted (entries : List Entry) {entry : Entry} (rest : List Entry)
    (h : entry.isCounted) : leadWeight (entries ++ entry :: rest) = leadWeight entries := by
  induction entries with
  | nil => simp [leadWeight, h]
  | cons first more ih => simp [leadWeight, ih]

theorem leadWeight_script (script : Script) :
    leadWeight (script.map .command) ≤ script.weight := by
  induction script with
  | nil => simp [leadWeight, Script.weight]
  | cons first more ih =>
    simp only [List.map_cons, leadWeight, Script.weight] at ih ⊢
    split
    · omega
    · simp only [weight]; omega

end Entry

-- ---------------------------------------------------------------------------
-- Scripts read from a body
-- ---------------------------------------------------------------------------

namespace Script

theorem weight_of_takePush {n : Nat} {input rest : Bytes} {command : Command}
    (h : takePush n input = .ok (command, rest)) : command.weight + rest.length = input.length + 1 := by
  unfold takePush at h
  cases ht : takeBytes n input with
  | error missing => simp [ht, Except.map] at h
  | ok taken =>
    obtain ⟨data, left⟩ := taken
    have := length_of_takeBytes ht
    simp only [ht, Except.map, Except.ok.injEq, Prod.mk.injEq] at h
    obtain ⟨rfl, rfl⟩ := h
    simp only [Command.weight]
    omega

theorem weight_of_decodeCommand {lead : UInt8} {input rest : Bytes} {command : Command}
    (h : decodeCommand lead input = .ok (command, rest)) :
    command.weight + rest.length ≤ input.length + 1 := by
  unfold decodeCommand at h
  split at h
  · exact Nat.le_of_eq (weight_of_takePush h)
  · split at h
    · cases ht : takeBytes 1 input with
      | error missing => simp [ht, bind, Except.bind] at h
      | ok taken =>
        obtain ⟨size, left⟩ := taken
        have := length_of_takeBytes ht
        simp only [ht, bind, Except.bind] at h
        have := weight_of_takePush h
        omega
    · split at h
      · cases ht : takeBytes 2 input with
        | error missing => simp [ht, bind, Except.bind] at h
        | ok taken =>
          obtain ⟨size, left⟩ := taken
          have := length_of_takeBytes ht
          simp only [ht, bind, Except.bind] at h
          have := weight_of_takePush h
          omega
      · cases h
        simp only [Command.weight]
        omega

theorem weight_of_commands {cursor : Cursor} {script : Script} (h : cursor.commands = .ok script) :
    script.weight ≤ cursor.rest.length := by
  fun_induction Cursor.commands cursor generalizing script with
  | case1 cursor hn =>
    cases h
    simp [weight]
  | case2 => cases h
  | case3 cursor command after hn ih =>
    cases ha : after.commands with
    | error e => simp [ha, Except.map] at h
    | ok more =>
      simp only [ha, Except.map, Except.ok.injEq] at h
      subst h
      have hmore := ih ha
      unfold Cursor.next at hn
      split at hn
      · cases hn
      · rename_i lead input hrest
        split at hn
        · rename_i c left hd
          cases hn
          have := weight_of_decodeCommand hd
          simp only [weight, hrest, List.length_cons] at hmore ⊢
          omega
        · cases hn

/-- A value that is passed on was there before. -/
theorem ok_of_mapError {ε ε' α : Type} {f : ε → ε'} {result : Except ε α} {a : α}
    (h : result.mapError f = .ok a) : result = .ok a := by
  cases result with
  | error e => cases h
  | ok b => cases h; rfl

/-- A script that is read from a body weighs no more than the body. -/
theorem weight_of_parseRawWith {pool after : BufferPool} {body : Bytes} {script : Script}
    (h : parseRawWith pool body = (.ok script, after)) : script.weight ≤ body.length := by
  unfold parseRawWith at h
  simp only [Prod.mk.injEq, Buffer.append, BufferPool.borrow_bytes, List.nil_append] at h
  have h : (read (CompactSize.encode body.length ++ body)).1 = .ok script := ok_of_mapError h.1
  unfold read at h
  cases hs : CompactSize.read (CompactSize.encode body.length ++ body) with
  | error e => simp [hs] at h
  | ok taken =>
    obtain ⟨declared, rest⟩ := taken
    have hrest := CompactSize.rest_of_read_encode hs
    subst hrest
    simp only [hs] at h
    split at h
    · cases h
    · have := weight_of_commands h
      simp only [Cursor.start, List.length_take] at this
      omega

end Script

end CoinScript
