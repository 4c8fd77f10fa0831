import Attestation.Apple.CborMaps
import Attestation.Apple.Verify
import Attestation.Base.P256

/-! What an assertion signature commits to. A device key signs digests of authData
followed by the hash of the client data; the hash has a fixed length, so the
concatenation has one reading, whatever the map around the authData looks like. -/

namespace Attestation.Apple

open Result

variable (cr : Crates)

/-- The message whose digest a device key signs. -/
def signedMessage (authData clientData : Bytes) : Bytes :=
  authData ++ (cr.sha256 clientData).toList

/-- The authenticatorData of an assertion object: the last entry of its map with
this key, if it is bytes. -/
def authenticatorData (assertionObject : Bytes) : Option Bytes :=
  match cr.cborFromReader assertionObject with
  | .ok (.map entries) =>
    (entries.reverse.find? fun e => e.1.asText = some "authenticatorData").bind fun e =>
      e.2.asBytes
  | _ => none

variable {cr}

/-! ### The walk over the map -/

/-- The loop leaves the authData of the last entry that has one. -/
theorem foldlM_step_authData {entries : List (Cbor.Value × Cbor.Value)} {st : AssertionEntries}
    (h : entries.foldlM AssertionEntries.step {} = .ok st) :
    st.authData =
      (entries.reverse.find? fun e => e.1.asText = some "authenticatorData").bind fun e =>
        e.2.asBytes := by
  obtain ⟨-, rfl⟩ := AssertionEntries.foldlM_step.mp h
  simp only [textField, lastMatch_eq_find?_reverse, Option.bind_map]
  rfl

theorem decodeAssertion_authData {assertionObject signature authData : Bytes}
    (h : decodeAssertion cr assertionObject = .ok (signature, authData)) :
    authenticatorData cr assertionObject = some authData := by
  simp only [decodeAssertion, bind_eq_ok, ofExcept_eq_ok, okOr_eq_ok, pure_eq_ok,
    Prod.mk.injEq] at h
  obtain ⟨value, hvalue, entries, hmap, st, hst, _, -, _, hauth, -, rfl⟩ := h
  cases value with
  | map entries' =>
    obtain rfl := Option.some.inj hmap
    rw [authenticatorData, hvalue, ← hauth, foldlM_step_authData hst]
  | _ => cases hmap

variable {assertionObject clientData attestedKey : Bytes} {appId : String} {clockMs : UInt64}
  {outcome : Outcome}

/-- An accepted assertion verifies, under the given key, over the authData of its
object and the given client data, and is of the given app. -/
theorem verifyAssertion_eq_ok
    (h : verifyAssertion cr assertionObject clientData attestedKey appId clockMs = .ok outcome) :
    ∃ authData key signature sig, authenticatorData cr assertionObject = some authData ∧
      authData.take 32 = (cr.sha256 (asBytes appId)).toList ∧
      cr.p256.fromSec1Bytes attestedKey = .ok key ∧
      cr.p256.signatureFromDer signature = .ok sig ∧
      cr.p256.verifyPrehash key (cr.sha256 (signedMessage cr authData clientData)) sig = true ∧
      outcome.attestedValue = attestedKey ∧ outcome.challenge = clientData := by
  simp only [verifyAssertion, bind_eq_ok, ensure_eq_ok, ofExcept_eq_ok, pure_eq_ok, Prod.exists,
    exists_const] at h
  obtain ⟨signature, authData, hdecoded, -, rpIdHash, hslice, hrp, key, hkey, sig, hsig, hverify,
    rfl⟩ := h
  refine ⟨authData, key, signature, sig, decodeAssertion_authData hdecoded, ?_, hkey, hsig,
    hverify, rfl, rfl⟩
  rw [← hrp]
  simp only [slice] at hslice
  split_ifs at hslice
  exact Except.ok.inj hslice

/-! ### The device key -/

variable (cr) in
/-- A DER signature that verifies under the key verifies a digest the key signed. -/
def Unforgeable (attestedKey : Bytes) (signed : Set Digest) : Prop :=
  ∀ key signature sig digest, cr.p256.fromSec1Bytes attestedKey = .ok key →
    cr.p256.signatureFromDer signature = .ok sig →
    cr.p256.verifyPrehash key digest sig = true → digest ∈ signed

variable (cr) in
/-- The digests are of pairs of authData and client data in `S`. -/
def SignsOnly (signed : Set Digest) (S : Set (Bytes × Bytes)) : Prop :=
  ∀ digest ∈ signed, ∃ p ∈ S, digest = cr.sha256 (signedMessage cr p.1 p.2)

variable (cr) in
/-- The messages hashed for pairs of authData and client data. -/
def hashedFor (S : Set (Bytes × Bytes)) : Set Bytes :=
  {m | ∃ p ∈ S, m = signedMessage cr p.1 p.2 ∨ m = p.2}

variable (cr) in
/-- The pair a call presents. -/
def presented (assertionObject clientData : Bytes) : Set (Bytes × Bytes) :=
  {p | authenticatorData cr assertionObject = some p.1 ∧ p.2 = clientData}

/-- Where the signed message of one pair is the signed message of another, the
pairs are equal. -/
theorem signedMessage_inj {S : Set (Bytes × Bytes)} {p q : Bytes × Bytes}
    (hfree : Set.InjOn cr.sha256 (hashedFor cr S)) (hp : p ∈ S) (hq : q ∈ S)
    (h : cr.sha256 (signedMessage cr p.1 p.2) = cr.sha256 (signedMessage cr q.1 q.2)) : p = q := by
  have hmessage := hfree ⟨p, hp, .inl rfl⟩ ⟨q, hq, .inl rfl⟩ h
  -- the hash of the client data is the last 32 bytes of either message
  obtain ⟨hauth, hdigest⟩ := List.append_inj' hmessage (by simp)
  have hclient := hfree ⟨p, hp, .inr rfl⟩ ⟨q, hq, .inr rfl⟩ (Vector.toList_inj.mp hdigest)
  exact Prod.ext hauth hclient

/-- An accepted assertion is one the device signed for this client data, with the
authData of the object, and for no app but the one whose hash that authData starts
with. -/
theorem assertion_not_retargeted {S : Set (Bytes × Bytes)} {signed : Set Digest}
    (hunforgeable : Unforgeable cr attestedKey signed) (hsigns : SignsOnly cr signed S)
    (hfree : Set.InjOn cr.sha256 (hashedFor cr (S ∪ presented cr assertionObject clientData)))
    (h : verifyAssertion cr assertionObject clientData attestedKey appId clockMs = .ok outcome) :
    ∃ authData, authenticatorData cr assertionObject = some authData ∧
      (authData, clientData) ∈ S ∧
      (cr.sha256 (asBytes appId)).toList = authData.take 32 ∧
      outcome.attestedValue = attestedKey ∧ outcome.challenge = clientData ∧
      ∀ otherApp, CollisionFreeOn cr.sha256 [asBytes appId, asBytes otherApp] →
        (cr.sha256 (asBytes otherApp)).toList = authData.take 32 → otherApp = appId := by
  obtain ⟨authData, key, signature, sig, hauth, hrp, hkey, hsig, hverify, hvalue, hchallenge⟩ :=
    verifyAssertion_eq_ok h
  obtain ⟨p, hp, hdigest⟩ := hsigns _ (hunforgeable _ _ _ _ hkey hsig hverify)
  obtain rfl : (authData, clientData) = p :=
    signedMessage_inj hfree (.inr ⟨hauth, rfl⟩) (.inl hp) hdigest
  refine ⟨authData, hauth, hp, hrp.symm, hvalue, hchallenge, fun otherApp happs hother => ?_⟩
  have heq := Vector.toList_inj.mp (hother.trans hrp)
  exact asBytes_injective (happs _ (by simp) _ (by simp) heq)

/-! ### A key that signed once -/

namespace AssertionSample

def key : Bytes := P256.generator.uncompressed

def authData : Bytes := (sha256 (asBytes "T.app")).toList ++ [0, 0, 0, 0, 1]

def digest : Digest := sha256 (authData ++ (sha256 [7]).toList)

/-- An assertion with two authData entries, of which the key signed the second. -/
def object : Cbor.Value :=
  .map [(.text "authenticatorData", .bytes [1]), (.text "signature", .bytes (key ++ digest.toList)),
    (.text "authenticatorData", .bytes authData)]

/-- Signatures of one digest and of no message. -/
def ecdsa : Ecdsa where
  VerifyingKey := Bytes
  DerSignature := Bytes
  fromSec1Bytes pk := .ok pk
  signatureFromDer sig := .ok sig
  verify _ _ _ := false
  verifyPrehash key d sig := sig = key ++ d.toList ∧ d = digest

def crates : Crates := { Crates.ofTables [] [([0xA3], object)] with p256 := ecdsa }

theorem eq_digest {key sig : Bytes} {d : Digest} (h : ecdsa.verifyPrehash key d sig = true) :
    d = digest :=
  (of_decide_eq_true h).2

theorem unforgeable : Unforgeable crates key {digest} := fun _ _ _ _ _ _ hverify =>
  eq_digest hverify

theorem crates_sha256 : crates.sha256 = sha256 := rfl

theorem signsOnly : SignsOnly crates {digest} {(authData, [7])} := by
  intro d hd
  refine ⟨_, rfl, ?_⟩
  rw [Set.mem_singleton_iff.mp hd, signedMessage, crates_sha256, digest]

theorem hashed_subset : ∀ m ∈ hashedFor crates ({(authData, [7])} ∪ presented crates [0xA3] [7]),
    m ∈ [authData ++ (sha256 [7]).toList, [7]] := by
  have hauth : authenticatorData crates [0xA3] = some authData := by decide +kernel
  rintro m ⟨⟨a, c⟩, hp, hm⟩
  obtain ⟨rfl, rfl⟩ : a = authData ∧ c = [7] := by
    rcases hp with hp | ⟨ha, hc⟩
    · exact Prod.mk.inj hp
    · exact ⟨Option.some.inj (ha.symm.trans hauth), hc⟩
  rcases hm with rfl | rfl
  · exact .head _
  · exact .tail _ (.head _)

end AssertionSample

open AssertionSample in
theorem assertion_not_retargeted_sample : ∃ outcome,
    verifyAssertion crates [0xA3] [7] key "T.app" 0 = .ok outcome ∧
      outcome.attestedValue = key ∧ outcome.challenge = [7] := by
  obtain ⟨outcome, h⟩ :=
    exists_eq_ok (x := verifyAssertion crates [0xA3] [7] key "T.app" 0) (by decide +kernel)
  have hfree : CollisionFreeOn sha256 [authData ++ (sha256 [7]).toList, [7]] := by decide +kernel
  obtain ⟨_, -, -, -, hvalue, hchallenge, -⟩ :=
    assertion_not_retargeted unforgeable signsOnly
      (fun a ha b hb => hfree a (hashed_subset a ha) b (hashed_subset b hb)) h
  exact ⟨outcome, h, hvalue, hchallenge⟩

end Attestation.Apple
