import Attestation.System.Witnesses

/-! Which runs keep the platforms apart. The two attestation payloads have the same
shape and one policy pins both verifiers, so a document of either platform is
accepted by the verifier of the other; the witnesses of a run are those of their
own platform exactly when nobody presents a document to the other verifier. -/

namespace Attestation.System

open Result Move Enclave

variable {D : Deployment} {s : State}

/-- Every witness carries a triple that its platform's verifier accepted. -/
def Separated (s : State) : Prop :=
  (∀ p ∈ s.appleWitnesses, ∃ out ∈ s.appleAccepted, vouched p.1 = triple out) ∧
    ∀ p ∈ s.androidWitnesses, ∃ out ∈ s.androidAccepted, vouched p.1 = triple out

instance : DecidablePred Separated := fun s =>
  inferInstanceAs (Decidable ((∀ p ∈ s.appleWitnesses, ∃ out ∈ s.appleAccepted, _) ∧
    ∀ p ∈ s.androidWitnesses, ∃ out ∈ s.androidAccepted, _))

/-- A document issued by the endpoint of one platform is presented to the verifier
of the other, fresh and with its own fields. -/
def CrossReplay (s : State) : Event D → Prop
  | .verifyAppleAttestation i a c d now =>
    Presents s (fun o => o.endpoint = some .androidAttestation) i [a, c, d] now
  | .verifyAndroidAttestation i a c d now =>
    Presents s (fun o => o.endpoint = some .appleAttestation) i [a, c, d] now
  | _ => False

instance (s : State) : DecidablePred (CrossReplay (D := D) s) := fun
  | .verifyAppleAttestation i a c d now => inferInstanceAs (Decidable
      (Presents s (fun o => o.endpoint = some .androidAttestation) i [a, c, d] now))
  | .verifyAndroidAttestation i a c d now => inferInstanceAs (Decidable
      (Presents s (fun o => o.endpoint = some .appleAttestation) i [a, c, d] now))
  | .registration .. | .appleAttestation .. | .appleAssertion .. | .androidAttestation ..
  | .otherImage .. | .verifyAppleAssertion .. => inferInstanceAs (Decidable False)

/-! ### The forms of an accepted key -/

/-- Apple's verifier attests points in X9.63 form, Android's attests SEQUENCEs. -/
structure Forms (s : State) : Prop where
  apple : ∀ out ∈ s.appleAccepted, out.attestedValue.head? = some 0x04
  android : ∀ out ∈ s.androidAccepted, out.attestedValue.head? = some Der.Tag.sequence

theorem head_of_extractP256Pk {cr : Crates} {coseBytes : Bytes} {pk : Apple.P256Pk}
    (h : Apple.extractP256Pk cr coseBytes = .ok pk) : pk.toList.head? = some 0x04 := by
  simp only [Apple.extractP256Pk, bind_eq_ok, toArray_eq_ok] at h
  obtain ⟨_, -, _, -, -, -, -, -, -, -, _, -, _, -, -, -, hpk⟩ := h
  rw [← hpk]
  rfl

theorem head_of_verifyAppleRequest {req : AppleRequest} {stampMs : UInt64} {out : Outcome}
    (h : verifyAppleRequest D.server req stampMs = .ok out) :
    out.attestedValue.head? = some 0x04 := by
  simp only [verifyAppleRequest, bind_eq_ok, mapErr_eq_ok, Apple.verifyAppAttest_eq_ok] at h
  obtain ⟨_, -, _, -, _, -, _, _, _, _, hchecks, rfl⟩ := h
  exact head_of_extractP256Pk hchecks.key

theorem head_of_verifyAndroidRequest {req : AndroidRequest} {stampMs : UInt64} {out : Outcome}
    (h : verifyAndroidRequest D.server req stampMs = .ok out) :
    out.attestedValue.head? = some Der.Tag.sequence := by
  simp only [verifyAndroidRequest, bind_eq_ok, mapErr_eq_ok, Android.verifyAttestation_eq_ok] at h
  obtain ⟨_, -, _, -, _, -, _, -, _, -, _, _, spkiDer, hchecks, -, rfl⟩ := h
  have hencoded := hchecks.encoded
  rw [SubjectPublicKeyInfo.toDer] at hencoded
  split_ifs at hencoded
  obtain rfl := Except.ok.inj hencoded
  rfl

theorem forms_step (h : Forms s) (e : Event D) : Forms (step D s e) := by
  have heffect := step_effect s e
  generalize step D s e = s' at heffect ⊢
  cases heffect with
  | appleAccepted hout | appleIssued hout =>
    refine ⟨fun out hmem => ?_, h.android⟩
    rcases List.mem_append.mp hmem with hmem | hmem
    · exact h.apple out hmem
    · obtain rfl := List.mem_singleton.mp hmem
      exact head_of_verifyAppleRequest hout
  | androidAccepted hout | androidIssued hout =>
    refine ⟨h.apple, fun out hmem => ?_⟩
    rcases List.mem_append.mp hmem with hmem | hmem
    · exact h.android out hmem
    · obtain rfl := List.mem_singleton.mp hmem
      exact head_of_verifyAndroidRequest hout
  | _ => exact ⟨h.apple, h.android⟩

/-- No triple is accepted by both platforms. -/
theorem Forms.triple_ne (h : Forms s) {out out' : Outcome} (hout : out ∈ s.appleAccepted)
    (hout' : out' ∈ s.androidAccepted) : triple out ≠ triple out' := by
  intro htriple
  have hvalue : out.attestedValue = out'.attestedValue := (List.cons.inj htriple).1
  have hhead := h.apple out hout
  rw [hvalue, h.android out' hout'] at hhead
  exact absurd hhead (by decide)

/-! ### One step and a run -/

theorem separated_step {e : Event D} (hgenuine : AllGenuine D s)
    (hhash : CollisionFreeOn D.server.crates.sha256 (step D s e).hashed) (h : Separated s)
    (hcross : ¬ CrossReplay s e) : Separated (step D s e) := by
  have hext := extends_step (s := s) e
  constructor
  · intro p hp
    rcases mem_appleWitnesses_step hgenuine hhash hp with
      hp | ⟨i, now, a, c, d, rfl, hi, hfields, hfresh, hvouched⟩
    · exact (h.1 p hp).imp fun _ hout => hout.imp_left fun hmem => hext.appleAccepted hmem
    · rcases origin_of_triple hfields with ⟨req, out, horigin, htriple⟩ | ⟨req, out, horigin, -⟩
      · have haccepted := (hgenuine p.2 (List.mem_of_getElem? hi)).appleAccepted horigin
        exact ⟨out, hext.appleAccepted haccepted, hvouched.trans htriple.symm⟩
      · exact absurd ⟨p.2, hi, by rw [horigin]; rfl, hfields, hfresh⟩ hcross
  · intro p hp
    rcases mem_androidWitnesses_step hgenuine hhash hp with
      hp | ⟨i, now, a, c, d, rfl, hi, hfields, hfresh, hvouched⟩
    · exact (h.2 p hp).imp fun _ hout => hout.imp_left fun hmem => hext.androidAccepted hmem
    · rcases origin_of_triple hfields with ⟨req, out, horigin, -⟩ | ⟨req, out, horigin, htriple⟩
      · exact absurd ⟨p.2, hi, by rw [horigin]; rfl, hfields, hfresh⟩ hcross
      · have haccepted := ((hgenuine p.2 (List.mem_of_getElem? hi)).androidAccepted horigin).1
        exact ⟨out, hext.androidAccepted haccepted, hvouched.trans htriple.symm⟩

/-- A cross-platform replay yields a witness of the wrong platform. -/
theorem not_separated_of_crossReplay {e : Event D} (hgenuine : AllGenuine D s) (hforms : Forms s)
    (hcross : CrossReplay s e) : ¬ Separated (step D s e) := by
  intro hseparated
  cases e with
  | verifyAppleAttestation i a c d now =>
    obtain ⟨issued, hi, hendpoint, hfields, hfresh⟩ := hcross
    rw [step_verifyAppleAttestation hgenuine hi hfields hfresh] at hseparated
    obtain ⟨out, hout, hvouched⟩ := hseparated.1 _
      (List.mem_append_right _ (List.mem_singleton.mpr rfl))
    rcases origin_of_triple hfields with ⟨_, _, horigin, -⟩ | ⟨req, out', horigin, htriple⟩
    · rw [horigin] at hendpoint
      cases hendpoint
    · have haccepted := ((hgenuine issued (List.mem_of_getElem? hi)).androidAccepted horigin).1
      exact hforms.triple_ne hout haccepted (hvouched.symm.trans htriple.symm)
  | verifyAndroidAttestation i a c d now =>
    obtain ⟨issued, hi, hendpoint, hfields, hfresh⟩ := hcross
    rw [step_verifyAndroidAttestation hgenuine hi hfields hfresh] at hseparated
    obtain ⟨out, hout, hvouched⟩ := hseparated.2 _
      (List.mem_append_right _ (List.mem_singleton.mpr rfl))
    rcases origin_of_triple hfields with ⟨req, out', horigin, htriple⟩ | ⟨_, _, horigin, -⟩
    · have haccepted := (hgenuine issued (List.mem_of_getElem? hi)).appleAccepted horigin
      exact hforms.triple_ne haccepted hout (htriple.trans hvouched)
    · rw [horigin] at hendpoint
      cases hendpoint
  | _ => exact hcross

/-- In a run without collisions the platforms stay apart exactly when no step is a
cross-platform replay. -/
theorem separated_iff_noCrossReplay (events : List (Event D))
    (hhash : CollisionFreeOn D.server.crates.sha256 (run (step D) {} events).hashed) :
    Always (step D) Separated {} events ↔
      EachStep (step D) (fun s e => ¬ CrossReplay s e) {} events := by
  have hinv : ∀ s (e : Event D), AllGenuine D s ∧ Forms s →
      AllGenuine D (step D s e) ∧ Forms (step D s e) :=
    fun s e h => ⟨allGenuine_step h.1 e, forms_step h.2 e⟩
  refine always_iff_eachStep (K := fun s => CollisionFreeOn D.server.crates.sha256 s.hashed)
    (fun s e h => h.mono (extends_step e).hashed) hinv ?_ hhash ?_ ?_
  · rintro s e hK ⟨hgenuine, hforms⟩ hP
    exact ⟨fun hs hcross => not_separated_of_crossReplay hgenuine hforms hcross hs,
      separated_step hgenuine hK hP⟩
  · exact ⟨fun _ h => (nomatch h), fun _ h => (nomatch h), fun _ h => (nomatch h)⟩
  · exact ⟨fun _ h => (nomatch h), fun _ h => (nomatch h)⟩

section Sample

theorem separated_iff_noCrossReplay_sample :
    Always (step sampleDeployment) Separated {} androidUse ∧
      (run (step sampleDeployment) {} androidUse).androidWitnesses.length = 1 :=
  ⟨(separated_iff_noCrossReplay androidUse (by decide +kernel)).mpr (by decide +kernel),
    by decide +kernel⟩

/-- An Android document at Apple's verifier. -/
def androidReplay : List (Event sampleDeployment) :=
  [.androidAttestation sampleNsm sampleAndroidRequest 0,
    .verifyAppleAttestation 0 sampleSpki [7] (sampleChainHash [[1], [2]]) 1000]

/-- An Apple witness in a run in which Apple's verifier accepted nothing. -/
theorem androidReplay_not_separated :
    CollisionFreeOn sha256 (run (step sampleDeployment) {} androidReplay).hashed ∧
      (run (step sampleDeployment) {} androidReplay).appleAccepted = [] ∧
      ¬ Always (step sampleDeployment) Separated {} androidReplay := by
  decide +kernel

end Sample

end Attestation.System
