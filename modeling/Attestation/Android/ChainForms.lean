import Attestation.Android.Anchoring

/-! The two forms of a chain. A client sends it up to the certificate that a pinned root
has signed, or with that root behind it. As long as no pinned root has expired the verifier
accepts both or neither, for the same key; only the hash of the chain differs. -/

namespace Attestation.Android

open Result

variable {cr : Crates} {pinnedRootsDer chain : List Bytes} {clockMs : UInt64}
  {top root leaf : Certificate} {roots : List Certificate} {rootDer : Bytes}

/-! ### A chain with one certificate more -/

theorem parsesTo_concat {certs : List Certificate} : ParsesTo cr (chain ++ [rootDer]) certs ↔
    ∃ below root, certs = below ++ [root] ∧ ParsesTo cr chain below ∧
      cr.certificateFromDer rootDer = .ok root := by
  induction chain generalizing certs with
  | nil =>
    simp only [ParsesTo, List.nil_append, List.forall₂_cons_left_iff, List.forall₂_nil_left_iff]
    constructor
    · rintro ⟨root, _, hroot, rfl, rfl⟩
      exact ⟨[], root, rfl, rfl, hroot⟩
    · rintro ⟨_, root, rfl, rfl, hroot⟩
      exact ⟨root, [], hroot, rfl, rfl⟩
  | cons der chain ih =>
    simp only [ParsesTo, List.cons_append, List.forall₂_cons_left_iff] at ih ⊢
    constructor
    · rintro ⟨cert, certs, hcert, hcerts, rfl⟩
      obtain ⟨below, root, rfl, hbelow, hroot⟩ := ih.mp hcerts
      exact ⟨cert :: below, root, rfl, ⟨cert, below, hcert, hbelow, rfl⟩, hroot⟩
    · rintro ⟨_, root, rfl, ⟨cert, below, hcert, hbelow, rfl⟩, hroot⟩
      exact ⟨cert, below ++ [root], hcert, ih.mpr ⟨below, root, rfl, hbelow, hroot⟩, rfl⟩

/-- The certificate behind the last one signs it, and nothing else changes. -/
theorem forall_zip_concat {P : Certificate × Certificate → Prop} {certs : List Certificate}
    (htop : certs.getLast? = some top) :
    (∀ p ∈ (certs ++ [root]).zip (certs ++ [root]).tail, P p) ↔
      (∀ p ∈ certs.zip certs.tail, P p) ∧ P (top, root) := by
  induction certs with
  | nil => cases htop
  | cons cert certs ih =>
    cases certs with
    | nil =>
      obtain rfl := Option.some.inj htop
      simp
    | cons cert' certs =>
      have hrest := ih (by simpa using htop)
      simp only [List.cons_append, List.tail_cons, List.zip_cons_cons,
        List.forall_mem_cons] at hrest ⊢
      rw [hrest, and_assoc]

theorem reachesTop_concat (hne : chain ≠ []) : ReachesTop cr (chain ++ [rootDer]) clockMs root ↔
    cr.certificateFromDer rootDer = .ok root ∧ X509.ValidAt root clockMs ∧
      ∃ top, ReachesTop cr chain clockMs top ∧ Signs cr root top := by
  constructor
  · rintro ⟨-, certs, hparsed, hvalid, hsigned, hlast⟩
    obtain ⟨below, root', rfl, hbelow, hroot⟩ := parsesTo_concat.mp hparsed
    obtain rfl : root' = root := by simpa using hlast
    have hnonempty : below ≠ [] := by
      rintro rfl
      exact hne (List.forall₂_nil_right_iff.mp hbelow)
    obtain ⟨top, htop⟩ := Option.ne_none_iff_exists'.mp
      (mt List.getLast?_eq_none_iff.mp hnonempty)
    obtain ⟨hbelowSigned, hsigns⟩ := (forall_zip_concat htop).mp hsigned
    exact ⟨hroot, hvalid _ (by simp), top, ⟨hne, below, hbelow, fun cert hcert =>
      hvalid cert (List.mem_append_left _ hcert), hbelowSigned, htop⟩, hsigns⟩
  · rintro ⟨hroot, hrootValid, top, ⟨-, below, hbelow, hvalid, hsigned, htop⟩, hsigns⟩
    refine ⟨by simp, below ++ [root], parsesTo_concat.mpr ⟨below, root, rfl, hbelow, hroot⟩, ?_,
      (forall_zip_concat htop).mpr ⟨hsigned, hsigns⟩, by simp⟩
    exact List.forall_mem_append.mpr ⟨hvalid, List.forall_mem_singleton.mpr hrootValid⟩

/-! ### The decision -/

/-- The leaf of an accepted chain is its first certificate. -/
theorem validateChain_eq_ok_iff_accepts : validateChain cr pinnedRootsDer chain clockMs = .ok leaf ↔
    Accepts cr pinnedRootsDer chain clockMs ∧
      ∃ der, chain.head? = some der ∧ cr.certificateFromDer der = .ok leaf := by
  have hhead : ∀ {certs}, ParsesTo cr chain certs → (certs.head? = some leaf ↔
      ∃ der, chain.head? = some der ∧ cr.certificateFromDer der = .ok leaf) := by
    intro certs hparsed
    cases hparsed with
    | nil => simp
    | cons hder _ => simp [hder]
  rw [Accepts, ← passesOtherChecks_iff, validateChain_eq_ok]
  constructor
  · rintro ⟨certs, hchecked, hleaf⟩
    exact ⟨⟨certs, hchecked⟩, (hhead hchecked.parsed).mp hleaf⟩
  · rintro ⟨⟨certs, hchecked⟩, hleaf⟩
    exact ⟨certs, hchecked, (hhead hchecked.parsed).mpr hleaf⟩

/-- Every pinned root is valid, and is written as the certificate it was read from. -/
structure Current (cr : Crates) (roots : List Certificate) (clockMs : UInt64) : Prop where
  valid : ∀ root ∈ roots, X509.ValidAt root clockMs
  encodes : ∀ root ∈ roots, ∃ der, cr.certificateToDer root = .ok der

theorem Current.anchor_iff (h : Current cr roots clockMs) : anchor cr top clockMs roots = .ok true ↔
    ∃ root ∈ roots, Identical cr root top ∨ Signs cr root top := by
  constructor
  · intro hanchor
    obtain ⟨root, hroot, hanchors⟩ := exists_anchors hanchor
    exact ⟨root, hroot, hanchors.imp_right And.left⟩
  · rintro ⟨root, hroot, hstops⟩
    refine anchor_of_noneExpired (fun root hroot hsigns => .inr ⟨hsigns, h.valid root hroot⟩) ?_
    exact ⟨root, hroot, hstops.imp_right fun hsigns => ⟨hsigns, h.valid root hroot⟩⟩

theorem exists_mem_iff_exists_der {P : Certificate → Prop} (h : ParsesTo cr pinnedRootsDer roots) :
    (∃ root ∈ roots, P root) ↔
      ∃ der ∈ pinnedRootsDer, ∃ root, cr.certificateFromDer der = .ok root ∧ P root := by
  unfold ParsesTo at h
  induction h with
  | nil => simp
  | cons hder _ ih => simp [ih, hder]

/-- A chain whose top certificate is no root is accepted exactly when it is with a pinned
root behind it. -/
theorem accepts_concat_iff (hne : chain ≠ []) (hroots : ParsesTo cr pinnedRootsDer roots)
    (hcurrent : Current cr roots clockMs)
    (hnot : ∀ top, ReachesTop cr chain clockMs top → ∀ root ∈ roots, ¬ Identical cr root top) :
    Accepts cr pinnedRootsDer chain clockMs ↔
      ∃ rootDer ∈ pinnedRootsDer, Accepts cr pinnedRootsDer (chain ++ [rootDer]) clockMs := by
  simp only [accepts_iff, reachesTop_concat hne]
  constructor
  · rintro ⟨top, htop, roots', hroots', hanchor⟩
    obtain rfl := hroots'.unique hroots
    obtain ⟨root, hroot, hstops⟩ := hcurrent.anchor_iff.mp hanchor
    have hsigns := hstops.resolve_left (hnot top htop root hroot)
    obtain ⟨rootDer, hrootDer, root', hparsed, rfl⟩ :=
      (exists_mem_iff_exists_der (P := (root = ·)) hroots).mp ⟨root, hroot, rfl⟩
    obtain ⟨der, hder⟩ := hcurrent.encodes root hroot
    exact ⟨rootDer, hrootDer, root, ⟨hparsed, hcurrent.valid root hroot, top, htop, hsigns⟩, _,
      hroots, hcurrent.anchor_iff.mpr ⟨root, hroot, .inl ⟨der, hder, hder⟩⟩⟩
  · rintro ⟨rootDer, hrootDer, root, ⟨hparsed, -, top, htop, hsigns⟩, -⟩
    obtain ⟨root', hroot, rfl⟩ :=
      (exists_mem_iff_exists_der (P := (root = ·)) hroots).mpr
        ⟨rootDer, hrootDer, root, hparsed, rfl⟩
    exact ⟨top, htop, roots, hroots, hcurrent.anchor_iff.mpr ⟨root, hroot, .inr hsigns⟩⟩

variable {challenge spkiDer : Bytes} {policy : Policy}

/-- A client may send the pinned root or leave it out. While no pinned root has expired or
is revoked, a chain that does not end in one is accepted for a key exactly when it is with
one of them behind it, and the two outcomes differ in the hash of the chain. -/
theorem root_optional (hroots : ParsesTo cr pinnedRootsDer roots)
    (hcurrent : Current cr roots clockMs)
    (hunrevoked : ∀ list, policy.statusList = some list → ∀ der ∈ pinnedRootsDer,
      checkStatus cr list der = .ok ())
    (hne : chain ≠ [])
    (hnot : ∀ top, ReachesTop cr chain clockMs top → ∀ root ∈ roots, ¬ Identical cr root top) :
    verifyAttestation cr pinnedRootsDer chain challenge policy clockMs =
        .ok (androidOutcome cr chain challenge clockMs spkiDer) ↔
      ∃ rootDer ∈ pinnedRootsDer,
        verifyAttestation cr pinnedRootsDer (chain ++ [rootDer]) challenge policy clockMs =
          .ok (androidOutcome cr (chain ++ [rootDer]) challenge clockMs spkiDer) := by
  have hhead : ∀ rootDer, (chain ++ [rootDer]).head? = chain.head? :=
    fun rootDer => List.head?_append_of_ne_nil _ hne
  simp only [verifyAttestation_eq_ok]
  constructor
  · rintro ⟨leaf, kd, _, hchecks, hrot, hout⟩
    obtain rfl : spkiDer = _ := congrArg Outcome.attestedValue hout
    obtain ⟨haccepts, hleaf⟩ := validateChain_eq_ok_iff_accepts.mp hchecks.chainValid
    obtain ⟨rootDer, hrootDer, haccepts⟩ :=
      (accepts_concat_iff hne hroots hcurrent hnot).mp haccepts
    refine ⟨rootDer, hrootDer, leaf, kd, _, { hchecks with
      chainValid := validateChain_eq_ok_iff_accepts.mpr ⟨haccepts, by rwa [hhead]⟩
      notRevoked := fun list hlist => List.forall_mem_append.mpr ⟨hchecks.notRevoked list hlist,
        List.forall_mem_singleton.mpr (hunrevoked list hlist rootDer hrootDer)⟩ }, hrot, rfl⟩
  · rintro ⟨rootDer, hrootDer, leaf, kd, _, hchecks, hrot, hout⟩
    obtain rfl : spkiDer = _ := congrArg Outcome.attestedValue hout
    obtain ⟨haccepts, hleaf⟩ := validateChain_eq_ok_iff_accepts.mp hchecks.chainValid
    rw [hhead] at hleaf
    refine ⟨leaf, kd, _, { hchecks with
      chainValid := validateChain_eq_ok_iff_accepts.mpr
        ⟨(accepts_concat_iff hne hroots hcurrent hnot).mpr ⟨rootDer, hrootDer, haccepts⟩, hleaf⟩
      notRevoked := fun list hlist =>
        (List.forall_mem_append.mp (hchecks.notRevoked list hlist)).1 }, hrot, rfl⟩

section Sample

/-- The leaf of a verified boot, and the root that signs it. -/
def formsRoots : List Certificate :=
  [Crates.issue [1] [1] [0x0B] [0x0A] [KeyDescription.extension 1 [7]
      (KeyDescription.rootOfTrustElement [9] 0xFF 0)],
    Crates.issue [2] [2] [0x0A] [0x0A] [Crates.caExtension]]

theorem root_optional_sample : ∃ spkiDer, ∃ rootDer ∈ ([[2]] : List Bytes),
    verifyAttestation (.ofTables formsRoots []) [[2]] ([[1]] ++ [rootDer]) [7] {} 0 =
      .ok (androidOutcome (.ofTables formsRoots []) ([[1]] ++ [rootDer]) [7] 0 spkiDer) := by
  obtain ⟨out, hout⟩ := exists_eq_ok (x := verifyAttestation (.ofTables formsRoots [])
    [[2]] [[1]] [7] {} 0) (by decide +kernel)
  obtain ⟨_, _, spkiDer, _, _, rfl⟩ := verifyAttestation_eq_ok.mp hout
  have hroots : ParsesTo (.ofTables formsRoots []) [[2]] [formsRoots[1]] :=
    .cons (by decide +kernel) .nil
  refine ⟨spkiDer, (root_optional hroots ⟨?_, ?_⟩ ?_ (by simp) ?_).mp hout⟩
  · exact List.forall_mem_singleton.mpr (by decide +kernel)
  · exact List.forall_mem_singleton.mpr ⟨[2], rfl⟩
  · exact fun _ hlist => nomatch hlist
  · rintro top ⟨-, certs, hparsed, -, -, htop⟩ root hroot ⟨der, hder, hder'⟩
    have hleaf : ParsesTo (.ofTables formsRoots []) [[1]] [formsRoots[0]] :=
      .cons (by decide +kernel) .nil
    obtain rfl := hparsed.unique hleaf
    obtain rfl := Option.some.inj htop
    obtain rfl := List.mem_singleton.mp hroot
    exact absurd (hder.trans hder'.symm) (by decide +kernel)

end Sample

end Attestation.Android
