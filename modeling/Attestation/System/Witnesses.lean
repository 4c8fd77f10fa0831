import Attestation.System.Documents

/-! What the attestation verifiers record. A fresh issued document presented with
the fields it was issued for yields a witness, and with no collision among the
hashed messages nothing else does. -/

namespace Attestation.System

open Result Move Enclave

variable {D : Deployment} {s : State} {i : ℕ} {issued : Issued} {a c d : Bytes} {now : UInt64}

/-- The fields a witness vouches for. -/
def vouched {Source : Type} (w : Witness Source) : List Bytes :=
  [w.attestedValue, w.challenge, w.detailHash]

/-- The issued document at this position is fresh, was issued for these fields, and
its origin is as described. -/
def Presents (s : State) (described : Origin → Prop) (i : ℕ) (fields : List Bytes)
    (now : UInt64) : Prop :=
  ∃ issued ∈ s.issued[i]?, described issued.origin ∧ issued.origin.fields = some fields ∧
    Fresh issued.document.timestamp now

instance {described : Origin → Prop} [DecidablePred described] {fields : List Bytes} :
    Decidable (Presents s described i fields now) :=
  inferInstanceAs (Decidable (∃ issued ∈ s.issued[i]?, _ ∧ _ ∧ _))

/-- The documents issued for three fields are those of the attestation endpoints. -/
theorem origin_of_triple {o : Origin} (h : o.fields = some [a, c, d]) :
    (∃ req out, o = .appleAttestation req out ∧ triple out = [a, c, d]) ∨
      ∃ req out, o = .androidAttestation req out ∧ triple out = [a, c, d] := by
  cases o with
  | registration => cases h
  | appleAttestation req out => exact .inl ⟨req, out, rfl, Option.some.inj h⟩
  | appleAssertion req out => simp [Origin.fields, pair] at h
  | androidAttestation req out => exact .inr ⟨req, out, rfl, Option.some.inj h⟩
  | otherImage => cases h

/-- A fresh document of the image passes the checks of a verifier with the fields it
was issued for. -/
theorem acceptable_of_fields {fields : List Bytes} (hissued : Genuine D s issued)
    (hfields : issued.origin.fields = some fields)
    (hfresh : Fresh issued.document.timestamp now) :
    Acceptable D.policy issued.document now ∧
      issued.document.userData = some (D.server.crates.sha256 (Bcs.byteFields fields)).toList := by
  have himage : issued.origin ≠ .otherImage := by
    intro h
    rw [h] at hfields
    cases hfields
  exact ⟨⟨hissued.image.mpr himage, hfresh, hissued.publicKey himage⟩,
    (hissued.bound fields hfields).1⟩

/-- A document that passes the checks of a verifier was issued for the call's fields. -/
theorem fields_of_acceptable {fields messages : List Bytes} (hissued : Genuine D s issued)
    (h : Acceptable D.policy issued.document now)
    (huser : issued.document.userData =
      some (D.server.crates.sha256 (Bcs.byteFields fields)).toList)
    (hhash : CollisionFreeOn D.server.crates.sha256 messages) (hsub : s.hashed ⊆ messages)
    (hmem : Bcs.byteFields fields ∈ messages) :
    issued.origin.fields = some fields :=
  fields_of_accepted hissued (hissued.image.mp h.pcrs) huser hhash hsub hmem

/-! ### The two verifiers -/

theorem step_verifyAppleAttestation (hgenuine : AllGenuine D s) (hi : s.issued[i]? = some issued)
    (hfields : issued.origin.fields = some [a, c, d])
    (hfresh : Fresh issued.document.timestamp now) :
    step D s (.verifyAppleAttestation i a c d now) =
      (s.hash [a, c, d]).addAppleWitness (⟨a, c, issued.document.timestamp, d⟩, issued) := by
  have hissued := hgenuine issued (List.mem_of_getElem? hi)
  obtain ⟨hacceptable, huser⟩ := acceptable_of_fields hissued hfields hfresh
  rw [step]
  exact call_of_ok hi (appleAttestation_verify_eq_ok.mpr ⟨hacceptable, huser, rfl⟩)

theorem step_verifyAndroidAttestation (hgenuine : AllGenuine D s)
    (hi : s.issued[i]? = some issued) (hfields : issued.origin.fields = some [a, c, d])
    (hfresh : Fresh issued.document.timestamp now) :
    step D s (.verifyAndroidAttestation i a c d now) =
      (s.hash [a, c, d]).addAndroidWitness (⟨a, c, issued.document.timestamp, d⟩, issued) := by
  have hissued := hgenuine issued (List.mem_of_getElem? hi)
  obtain ⟨hacceptable, huser⟩ := acceptable_of_fields hissued hfields hfresh
  rw [step]
  exact call_of_ok hi (androidAttestation_verify_eq_ok.mpr ⟨hacceptable, huser, rfl⟩)

/-- A witness after a step is an earlier one or one of a call that presented a
document with its own fields. -/
theorem mem_appleWitnesses_step {e : Event D} {p : Witness AppleAppAttest × Issued}
    (hgenuine : AllGenuine D s)
    (hhash : CollisionFreeOn D.server.crates.sha256 (step D s e).hashed)
    (h : p ∈ (step D s e).appleWitnesses) :
    p ∈ s.appleWitnesses ∨ ∃ i now a c d, e = .verifyAppleAttestation i a c d now ∧
      s.issued[i]? = some p.2 ∧ p.2.origin.fields = some [a, c, d] ∧
      Fresh p.2.document.timestamp now ∧ vouched p.1 = [a, c, d] := by
  have heffect := step_effect s e
  generalize step D s e = s' at heffect h hhash ⊢
  cases heffect with
  | appleWitnessed hi hw =>
    rcases List.mem_append.mp h with h | h
    · exact .inl h
    · obtain rfl := List.mem_singleton.mp h
      obtain ⟨hacceptable, huser, rfl⟩ := appleAttestation_verify_eq_ok.mp hw
      have hissued := hgenuine _ (List.mem_of_getElem? hi)
      exact .inr ⟨_, _, _, _, _, rfl, hi, fields_of_acceptable hissued hacceptable huser hhash
        (List.subset_append_left _ _) (List.mem_append_right _ (by simp)), hacceptable.fresh, rfl⟩
  | _ => exact .inl h

theorem mem_androidWitnesses_step {e : Event D} {p : Witness AndroidKeyAttestation × Issued}
    (hgenuine : AllGenuine D s)
    (hhash : CollisionFreeOn D.server.crates.sha256 (step D s e).hashed)
    (h : p ∈ (step D s e).androidWitnesses) :
    p ∈ s.androidWitnesses ∨ ∃ i now a c d, e = .verifyAndroidAttestation i a c d now ∧
      s.issued[i]? = some p.2 ∧ p.2.origin.fields = some [a, c, d] ∧
      Fresh p.2.document.timestamp now ∧ vouched p.1 = [a, c, d] := by
  have heffect := step_effect s e
  generalize step D s e = s' at heffect h hhash ⊢
  cases heffect with
  | androidWitnessed hi hw =>
    rcases List.mem_append.mp h with h | h
    · exact .inl h
    · obtain rfl := List.mem_singleton.mp h
      obtain ⟨hacceptable, huser, rfl⟩ := androidAttestation_verify_eq_ok.mp hw
      have hissued := hgenuine _ (List.mem_of_getElem? hi)
      exact .inr ⟨_, _, _, _, _, rfl, hi, fields_of_acceptable hissued hacceptable huser hhash
        (List.subset_append_left _ _) (List.mem_append_right _ (by simp)), hacceptable.fresh, rfl⟩
  | _ => exact .inl h

theorem mem_assertionWitnesses_step {e : Event D} {p : Witness AppleAssertion × Issued}
    (hgenuine : AllGenuine D s)
    (hhash : CollisionFreeOn D.server.crates.sha256 (step D s e).hashed)
    (h : p ∈ (step D s e).assertionWitnesses) :
    p ∈ s.assertionWitnesses ∨ p.2 ∈ s.issued ∧
      p.2.origin.fields = some [p.1.attestedValue, p.1.challenge] := by
  have heffect := step_effect s e
  generalize step D s e = s' at heffect h hhash ⊢
  cases heffect with
  | assertionWitnessed hi hw =>
    rcases List.mem_append.mp h with h | h
    · exact .inl h
    · obtain rfl := List.mem_singleton.mp h
      obtain ⟨hacceptable, huser, rfl⟩ := appleAssertion_verify_eq_ok.mp hw
      have hissued := List.mem_of_getElem? hi
      exact .inr ⟨hissued, fields_of_acceptable (hgenuine _ hissued) hacceptable huser hhash
        (List.subset_append_left _ _) (List.mem_append_right _ (by simp))⟩
  | _ => exact .inl h

/-- The documents issued for two fields are those of the assertion endpoint. -/
theorem origin_of_pair {o : Origin} {k d : Bytes} (h : o.fields = some [k, d]) :
    ∃ req out, o = .appleAssertion req out ∧ pair out = [k, d] := by
  cases o with
  | appleAssertion req out => exact ⟨req, out, rfl, Option.some.inj h⟩
  | appleAttestation req out | androidAttestation req out => simp [Origin.fields, triple] at h
  | registration | otherImage => cases h

end Attestation.System
