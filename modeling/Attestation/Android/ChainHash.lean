import Attestation.Android.ChainOfTrust
import Attestation.Base.SelfDelimiting

/-! What the detail hash of an Android outcome commits to. Each certificate is hashed
behind its length in four bytes, so a certificate shorter than `2 ^ 32` bytes ends where
its length says and the hashed bytes have one reading as a chain. -/

namespace Attestation.Android

open Result

theorem beBytes_selfDelimiting (k : ℕ) :
    SelfDelimiting fun n : {n : ℕ // n < 256 ^ k} => beBytes k n :=
  .of_length (fun n => length_beBytes k n) fun x y h => Subtype.ext (beBytes_inj x.2 y.2 h)

/-- A chain is determined by the bytes that are hashed for it. -/
theorem canonicalChainHashInput_inj {a b : List Bytes} (ha : ∀ der ∈ a, der.length < 2 ^ 32)
    (hb : ∀ der ∈ b, der.length < 2 ^ 32)
    (h : canonicalChainHashInput a = canonicalChainHashInput b) : a = b := by
  have : Nontrivial {der : Bytes // der.length < 256 ^ 4} :=
    ⟨⟨[], by norm_num⟩, ⟨[0], by norm_num⟩, fun h => List.cons_ne_nil _ _ (congrArg Subtype.val h).symm⟩
  exact (beBytes_selfDelimiting 4).lengthPrefixedOn.flatMap_inj ha hb h

/-- An accepted call hashes its chain. -/
theorem detailHash_of_accepted {cr : Crates} {pinnedRootsDer chain : List Bytes} {challenge : Bytes}
    {policy : Policy} {clockMs : UInt64} {outcome : Outcome}
    (h : verifyAttestation cr pinnedRootsDer chain challenge policy clockMs = .ok outcome) :
    outcome.detailHash = (cr.sha256 (canonicalChainHashInput chain)).toList := by
  obtain ⟨_, _, _, -, -, rfl⟩ := verifyAttestation_eq_ok.mp h
  rfl

/-- The hashed bytes determine the chain, and where their hashes do not collide so does the
detail hash of an accepted call, whatever the two calls are given besides. -/
theorem detailHash_commits {a b : List Bytes} (ha : ∀ der ∈ a, der.length < 2 ^ 32)
    (hb : ∀ der ∈ b, der.length < 2 ^ 32) :
    (canonicalChainHashInput a = canonicalChainHashInput b → a = b) ∧
      ∀ (cr : Crates) (roots₁ roots₂ : List Bytes) (challenge₁ challenge₂ : Bytes)
        (policy₁ policy₂ : Policy) (clock₁ clock₂ : UInt64) (out₁ out₂ : Outcome),
        CollisionFreeOn cr.sha256 [canonicalChainHashInput a, canonicalChainHashInput b] →
        verifyAttestation cr roots₁ a challenge₁ policy₁ clock₁ = .ok out₁ →
        verifyAttestation cr roots₂ b challenge₂ policy₂ clock₂ = .ok out₂ →
        out₁.detailHash = out₂.detailHash → a = b := by
  refine ⟨canonicalChainHashInput_inj ha hb, ?_⟩
  intro cr _ _ _ _ _ _ _ _ out₁ out₂ hfree h₁ h₂ hdetail
  rw [detailHash_of_accepted h₁, detailHash_of_accepted h₂] at hdetail
  have hmessage := hfree _ (by simp) _ (by simp) (Vector.toList_inj.mp hdetail)
  exact canonicalChainHashInput_inj ha hb hmessage

/-- A certificate that looks like a length moves no boundary, and two calls at different
times that commit to the same hash were given the same chain. -/
theorem detailHash_commits_rogueChain :
    canonicalChainHashInput [[0, 0, 0, 0], []] ≠ canonicalChainHashInput [[], [0, 0, 0, 0]] ∧
      ∃ out₁ out₂, verifyAttestation (.ofTables rogueChain []) [[3]] [[1], [2], [3]] [7] {} 0 =
          .ok out₁ ∧
        verifyAttestation (.ofTables rogueChain []) [[3]]
          (rogueChain.map fun c => c.tbsCertificate.rest) [7] {} 1 = .ok out₂ ∧
        out₁.detailHash = out₂.detailHash ∧
        [[1], [2], [3]] = rogueChain.map fun c => c.tbsCertificate.rest := by
  refine ⟨fun h => absurd ((detailHash_commits (by decide) (by decide)).1 h) (by decide), ?_⟩
  obtain ⟨out₁, h₁⟩ := exists_eq_ok (x := verifyAttestation (.ofTables rogueChain []) [[3]]
    [[1], [2], [3]] [7] {} 0) (by decide +kernel)
  obtain ⟨out₂, h₂⟩ := exists_eq_ok (x := verifyAttestation (.ofTables rogueChain []) [[3]]
    (rogueChain.map fun c => c.tbsCertificate.rest) [7] {} 1) (by decide +kernel)
  have hdetail : out₁.detailHash = out₂.detailHash := by
    rw [detailHash_of_accepted h₁, detailHash_of_accepted h₂]
    rfl
  refine ⟨out₁, out₂, h₁, h₂, hdetail, ?_⟩
  refine (detailHash_commits (by decide) (by decide)).2 _ _ _ _ _ _ _ _ _ _ _ ?_ h₁ h₂ hdetail
  simp [CollisionFreeOn, rogueChain, Crates.issue]

end Attestation.Android
