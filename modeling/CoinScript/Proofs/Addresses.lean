import CoinScript.Address
import CoinScript.Proofs.Base58Check
import CoinScript.Proofs.Templates

/-!
# What an address says about its output

The text of an address is read back as the address, up to the network that shares its version bytes, and
nothing else is read as it. So outputs that pay to a key or a script are told apart by the texts of their
addresses. Each statement comes from one on payloads: the text is the checked form of the payload, and the
version byte in front of it says which kind of output it is.
-/

namespace CoinScript

variable {network : Network} {address : Address} {script : Script} {text : String}
  {payload : Bytes}

/-- The network that the addresses of a network are read as. -/
def Network.readAs (network : Network) : Network :=
  if network = .regtest then .testnet else network

namespace Address

/-- The address that its text is read as. -/
def readAs : Address → Address
  | .pubKeyHash network hash => .pubKeyHash network.readAs hash
  | .scriptHash network hash => .scriptHash network.readAs hash
  | .nullData data => .nullData data

/-- The template of the outputs that pay to an address. -/
def template : Address → Template
  | .pubKeyHash _ hash => .pubKeyHash hash
  | .scriptHash _ hash => .scriptHash hash
  | .nullData data => .nullData data

@[simp] theorem template_readAs (address : Address) : address.readAs.template = address.template := by
  cases address <;> rfl

/-! ## Payloads -/

theorem text_eq (h : address.payload? = some payload) : address.text = Base58.encodeCheck payload := by
  rw [text, h]

/-- The version byte says which kind of output it is, and which network up to those that share the byte. -/
theorem ofVersion_of_payload? {version : UInt8} {hash : Digest 20}
    (h : address.payload? = some (version :: hash.bytes)) : ofVersion version hash = .ok address.readAs := by
  cases address with
  | pubKeyHash network key =>
    obtain ⟨rfl, hbytes⟩ := List.cons.inj (Option.some.inj h)
    obtain rfl := Digest.ext hbytes
    cases network <;> rfl
  | scriptHash network redeem =>
    obtain ⟨rfl, hbytes⟩ := List.cons.inj (Option.some.inj h)
    obtain rfl := Digest.ext hbytes
    cases network <;> rfl
  | nullData data => cases h

theorem payload?_of_ofVersion {version : UInt8} {hash : Digest 20}
    (h : ofVersion version hash = .ok address) : address.payload? = some (version :: hash.bytes) := by
  unfold ofVersion at h
  split_ifs at h with hversion hversion hversion hversion <;> cases h
  all_goals
    rw [hversion]
    rfl

theorem exists_of_payload? (h : address.payload? = some payload) :
    ∃ (version : UInt8) (hash : Digest 20), payload = version :: hash.bytes := by
  cases address with
  | pubKeyHash network hash => exact ⟨_, hash, (Option.some.inj h).symm⟩
  | scriptHash network hash => exact ⟨_, hash, (Option.some.inj h).symm⟩
  | nullData data => cases h

/-! ## Texts -/

theorem parse_eq_ok_iff :
    parse text = .ok address ↔ ∃ (version : UInt8) (hash : Digest 20),
      Base58.encodeCheck (version :: hash.bytes) = text ∧ ofVersion version hash = .ok address := by
  constructor
  · intro h
    unfold parse at h
    split at h
    · cases h
    · cases h
    · rename_i version bytes hdecode
      split at h
      · cases h
      · rename_i hash hhash
        rw [Digest.ofBytes?_eq_some_iff.1 hhash] at hdecode
        exact ⟨version, hash, Base58.decodeCheck_eq_ok_iff.1 hdecode, h⟩
  · rintro ⟨version, hash, htext, hversion⟩
    simp only [parse, Base58.decodeCheck_eq_ok_iff.2 htext, Digest.ofBytes?_bytes, hversion]

theorem parse_text (h : address.payload? = some payload) : parse address.text = .ok address.readAs := by
  obtain ⟨version, hash, rfl⟩ := exists_of_payload? h
  exact parse_eq_ok_iff.2 ⟨version, hash, (text_eq h).symm, ofVersion_of_payload? h⟩

theorem text_of_parse (h : parse text = .ok address) : address.text = text := by
  obtain ⟨version, hash, htext, hversion⟩ := parse_eq_ok_iff.1 h
  rw [text_eq (payload?_of_ofVersion hversion), htext]

end Address

/-! ## Outputs -/

namespace Script

theorem template?_of_address (h : script.address network = .ok address) :
    script.template? = some address.template := by
  unfold Script.address at h
  split at h <;> cases h
  all_goals
    rename_i htemplate
    exact htemplate

theorem isP2pkh_iff : script.isP2pkh ↔ ∃ hash, script.template? = some (.pubKeyHash hash) := by
  unfold isP2pkh
  split <;> simp_all

theorem isP2sh_iff : script.isP2sh ↔ ∃ hash, script.template? = some (.scriptHash hash) := by
  unfold isP2sh
  split <;> simp_all

theorem exists_address (network : Network) (h : script.isP2pkh ∨ script.isP2sh) :
    ∃ address payload, script.address network = .ok address ∧ address.payload? = some payload := by
  rw [isP2pkh_iff, isP2sh_iff] at h
  obtain ⟨hash, htemplate⟩ | ⟨hash, htemplate⟩ := h
  · exact ⟨.pubKeyHash network hash, _, by rw [Script.address, htemplate], rfl⟩
  · exact ⟨.scriptHash network hash, _, by rw [Script.address, htemplate], rfl⟩

/-- Only witness programs and outputs without data have a second spelling. -/
theorem eq_script_of_address (h : script.address network = .ok address)
    (hpayload : address.payload? = some payload) : script = address.template.script := by
  have hspelling := spelling_of_template? (template?_of_address h)
  generalize htemplate : address.template = template at hspelling
  cases hspelling with
  | built template => rfl
  | program program => cases address <;> cases program <;> cases htemplate
  | noData =>
    cases address with
    | nullData data => cases hpayload
    | pubKeyHash | scriptHash => cases htemplate

end Script

/-- Addresses identify outputs. The text of an address that pays to a key or to a script is read as that
address, on the network it is on or, of the test networks, on the first. A text that is read as an address is
the text of that address, so there is no other spelling. On one network, scripts that pay to a key or to a
script and have addresses with the same text are the same script, built for one template. -/
theorem Address.addresses_identify_outputs :
    (∀ (network : Network) (hash : Digest 20),
        parse (pubKeyHash network hash).text = .ok (.pubKeyHash network.readAs hash) ∧
          parse (scriptHash network hash).text = .ok (.scriptHash network.readAs hash)) ∧
      (∀ (text : String) (address : Address), parse text = .ok address → address.text = text) ∧
      ∀ (network : Network) (script script' : Script), (script.isP2pkh ∨ script.isP2sh) →
        (script'.isP2pkh ∨ script'.isP2sh) →
          ∃ address address', script.address network = .ok address ∧
            script'.address network = .ok address' ∧
              (address.text = address'.text →
                ∃ template : Template, script.template? = some template ∧
                  script'.template? = some template ∧ script = template.script ∧
                    script' = template.script) := by
  refine ⟨fun network hash => ⟨parse_text rfl, parse_text rfl⟩, fun _ _ => text_of_parse, ?_⟩
  intro network script script' h h'
  obtain ⟨address, payload, haddress, hpayload⟩ := Script.exists_address network h
  obtain ⟨address', payload', haddress', hpayload'⟩ := Script.exists_address network h'
  refine ⟨address, address', haddress, haddress', fun htext => ?_⟩
  have hread : address.readAs = address'.readAs := by
    have hparse := parse_text hpayload
    rw [htext, parse_text hpayload'] at hparse
    exact (Except.ok.inj hparse).symm
  have htemplate : address'.template = address.template := by
    rw [← template_readAs address, hread, template_readAs]
  refine ⟨address.template, Script.template?_of_address haddress, ?_,
    Script.eq_script_of_address haddress hpayload, ?_⟩
  · rw [Script.template?_of_address haddress', htemplate]
  · rw [Script.eq_script_of_address haddress' hpayload', htemplate]

/-- A hash on a test network, of a script and of a key. -/
theorem Address.addresses_identify_outputs_regtest :
    ∃ hash : Digest 20, hash.bytes = List.replicate 20 0x42 ∧
      parse (scriptHash .regtest hash).text = .ok (.scriptHash .testnet hash) ∧
      (scriptHash .testnet hash).text = (scriptHash .regtest hash).text ∧
      (pubKeyHash .regtest hash).text ≠ (scriptHash .regtest hash).text := by
  obtain ⟨hparse, htext, hscripts⟩ := addresses_identify_outputs
  let hash : Digest 20 := ⟨List.replicate 20 0x42, rfl⟩
  have hread := (hparse .regtest hash).2
  refine ⟨hash, rfl, hread, htext _ _ hread, fun hsame => ?_⟩
  obtain ⟨address, address', haddress, haddress', hidentify⟩ :=
    hscripts .regtest (Script.p2pkh hash) (Script.p2sh hash) (.inl rfl) (.inr rfl)
  obtain rfl : .pubKeyHash .regtest hash = address := Except.ok.inj haddress
  obtain rfl : .scriptHash .regtest hash = address' := Except.ok.inj haddress'
  obtain ⟨template, hkey, hscript, -⟩ := hidentify hsame
  cases hkey
  cases hscript

end CoinScript
