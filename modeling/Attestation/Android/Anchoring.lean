import Attestation.Android.ChainOfTrust
import Mathlib.Data.List.Perm.Basic

/-! Whether anchoring depends on the order of the pinned roots. The loop stops at
the first root that is the top certificate or whose key verifies it, and a root
of the second kind ends the search with an error when it is not valid, although a
later root may anchor the chain. So the order is irrelevant exactly when no root
of the list can end the search that way. -/

namespace Attestation.Android

open Result

variable {cr : Crates} {pinnedRootsDer chain : List Bytes} {clockMs : UInt64} {top root : Certificate}
  {roots : List Certificate}

/-! ### The loop over the roots -/

theorem verifySignature_returns (cert issuer : Certificate) :
    Returns (verifySignature cr cert issuer) := by
  refine .bind (.okOr _ _) fun _ _ => .bind (.ofExcept _ _) fun _ _ => .bind (.okOr _ _) fun _ _ => ?_
  dsimp only
  split_ifs
  · refine .bind (.okOr _ _) fun _ _ => ?_
    split_ifs
    · exact X509.verifyEcdsa_returns _ _ _ _ _
    · exact X509.verifyEcdsa_returns _ _ _ _ _
    · exact X509.verifyEcdsa_returns _ _ _ _ _
    · exact .fail _
  · exact .bind (.ofExcept _ _) fun _ _ => .bind (.ofExcept _ _) fun _ _ => .ensure _ _
  · exact .fail _
  · exact .fail _

/-- The two certificates have one encoding. -/
def Identical (cr : Crates) (root top : Certificate) : Prop :=
  ∃ der, cr.certificateToDer root = .ok der ∧ cr.certificateToDer top = .ok der

/-- The root's key verifies the top certificate. -/
def Signs (cr : Crates) (root top : Certificate) : Prop := verifySignature cr top root = .ok ()

/-- The root anchors the top certificate at the time. -/
def Anchors (cr : Crates) (root top : Certificate) (clockMs : UInt64) : Prop :=
  Identical cr root top ∨ Signs cr root top ∧ X509.ValidAt root clockMs

theorem rootMatchesTop_eq_true : rootMatchesTop cr root top = true ↔ Identical cr root top := by
  unfold rootMatchesTop Identical
  split
  · rename_i a b ha hb
    simp only [ha, hb, Except.ok.injEq, decide_eq_true_eq]
    exact ⟨fun h => ⟨b, h, rfl⟩, fun ⟨_, ha, hb⟩ => ha.trans hb.symm⟩
  · rename_i h
    simp only [Bool.false_eq_true, false_iff]
    rintro ⟨der, hroot, htop⟩
    exact h der der hroot htop

instance : Decidable (Identical cr root top) := decidable_of_iff _ rootMatchesTop_eq_true

instance : Decidable (Signs cr root top) := inferInstanceAs (Decidable (_ = _))

/-- The loop stops at the first root that is the top certificate or signs it, and
accepts if that root anchors it. -/
theorem anchor_eq_ok_true : anchor cr top clockMs roots = .ok true ↔
    ∃ root, roots.find? (fun root => Identical cr root top ∨ Signs cr root top) = some root ∧
      Anchors cr root top clockMs := by
  induction roots with
  | nil => simp [anchor, pure, Except.pure]
  | cons root roots ih =>
    rw [anchor, List.find?_cons]
    by_cases hid : Identical cr root top
    · simp [rootMatchesTop_eq_true.mpr hid, hid, Anchors, pure, Except.pure]
    rw [if_neg (mt rootMatchesTop_eq_true.mp hid)]
    rcases hsigns : verifySignature cr top root with (e | _) | ⟨⟩
    · have hnot : ¬ Signs cr root top := by rw [Signs, hsigns]; simp
      simpa [hid, hnot] using ih
    · exact absurd hsigns (verifySignature_returns top root)
    · have hsigns : Signs cr root top := hsigns
      have hstops : decide (Identical cr root top ∨ Signs cr root top) = true := by simp [hsigns]
      rw [hstops]
      simp only [Option.some.injEq, exists_eq_left', Anchors, hid, hsigns, false_or,
        true_and, bind_eq_ok, pure_eq_ok, checkValidity, X509.checkValidity_eq_ok, exists_const,
        and_true]

/-- No root signs the top certificate without anchoring it. -/
def NoneExpired (cr : Crates) (roots : List Certificate) (top : Certificate) (clockMs : UInt64) :
    Prop :=
  ∀ root ∈ roots, Signs cr root top → Anchors cr root top clockMs

theorem anchor_of_noneExpired (h : NoneExpired cr roots top clockMs)
    (hanchors : ∃ root ∈ roots, Anchors cr root top clockMs) :
    anchor cr top clockMs roots = .ok true := by
  rw [anchor_eq_ok_true]
  obtain ⟨root, hroot, hanchor⟩ := hanchors
  have hfound : (roots.find? fun root => Identical cr root top ∨ Signs cr root top).isSome = true :=
    List.find?_isSome.mpr ⟨root, hroot, by simpa using hanchor.imp_right And.left⟩
  obtain ⟨first, hfirst⟩ := Option.isSome_iff_exists.mp hfound
  have hmem := List.mem_of_find?_eq_some hfirst
  have hstops : Identical cr first top ∨ Signs cr first top := by
    simpa using List.find?_some hfirst
  exact ⟨first, hfirst, hstops.elim .inl (h first hmem)⟩

theorem exists_anchors (h : anchor cr top clockMs roots = .ok true) :
    ∃ root ∈ roots, Anchors cr root top clockMs := by
  obtain ⟨root, hfind, hanchor⟩ := anchor_eq_ok_true.mp h
  exact ⟨root, List.mem_of_find?_eq_some hfind, hanchor⟩

/-- A root that signs the top certificate without anchoring it ends the search
when it stands first. -/
theorem anchor_cons_ne (hsigns : Signs cr root top) (hnot : ¬ Anchors cr root top clockMs) :
    anchor cr top clockMs (root :: roots) ≠ .ok true := by
  intro h
  obtain ⟨first, hfind, hanchor⟩ := anchor_eq_ok_true.mp h
  rw [List.find?_cons_of_pos (by simp [hsigns])] at hfind
  obtain rfl := Option.some.inj hfind
  exact hnot hanchor

/-! ### The decision on a chain -/

/-- The list of certificates that a list of encodings parses to. -/
def ParsesTo (cr : Crates) (ders : List Bytes) (certs : List Certificate) : Prop :=
  List.Forall₂ (fun der cert => cr.certificateFromDer der = .ok cert) ders certs

theorem ParsesTo.unique {ders : List Bytes} {certs certs' : List Certificate}
    (h : ParsesTo cr ders certs) (h' : ParsesTo cr ders certs') : certs = certs' := by
  have hparse : Relator.RightUnique fun der cert => cr.certificateFromDer der = .ok cert :=
    fun _ _ _ hb hc => Except.ok.inj (hb.symm.trans hc)
  exact hparse.forall₂ h h'

/-- The chain passes every check made before a root is sought for `top`. -/
def ReachesTop (cr : Crates) (chain : List Bytes) (clockMs : UInt64) (top : Certificate) : Prop :=
  chain ≠ [] ∧ ∃ certs, ParsesTo cr chain certs ∧ (∀ cert ∈ certs, X509.ValidAt cert clockMs) ∧
    (∀ p ∈ certs.zip certs.tail, verifySignature cr p.1 p.2 = .ok ()) ∧ certs.getLast? = some top

theorem ReachesTop.unique {top' : Certificate} (h : ReachesTop cr chain clockMs top)
    (h' : ReachesTop cr chain clockMs top') : top = top' := by
  obtain ⟨-, certs, hparsed, -, -, htop⟩ := h
  obtain ⟨-, certs', hparsed', -, -, htop'⟩ := h'
  obtain rfl := hparsed.unique hparsed'
  exact Option.some.inj (htop.symm.trans htop')

/-- The validator accepts the chain under the roots. -/
def Accepts (cr : Crates) (pinnedRootsDer chain : List Bytes) (clockMs : UInt64) : Prop :=
  ∃ leaf, validateChain cr pinnedRootsDer chain clockMs = .ok leaf

theorem accepts_iff : Accepts cr pinnedRootsDer chain clockMs ↔
    ∃ top, ReachesTop cr chain clockMs top ∧
      ∃ roots, ParsesTo cr pinnedRootsDer roots ∧ anchor cr top clockMs roots = .ok true := by
  rw [Accepts, ← passesOtherChecks_iff]
  constructor
  · rintro ⟨certs, hne, hparsed, hvalid, hsigned, roots, top, hroots, htop, hanchor⟩
    exact ⟨top, ⟨hne, certs, hparsed, hvalid, hsigned, htop⟩, roots, hroots, hanchor⟩
  · rintro ⟨top, ⟨hne, certs, hparsed, hvalid, hsigned, htop⟩, roots, hroots, hanchor⟩
    exact ⟨certs, hne, hparsed, hvalid, hsigned, roots, top, hroots, htop, hanchor⟩

/-- Some root of the trust store anchors the top certificate. -/
def AnchoredIn (cr : Crates) (pinnedRootsDer : List Bytes) (top : Certificate) (clockMs : UInt64) :
    Prop :=
  ∃ der ∈ pinnedRootsDer, ∃ root, cr.certificateFromDer der = .ok root ∧
    Anchors cr root top clockMs

theorem anchoredIn_iff (h : ParsesTo cr pinnedRootsDer roots) :
    AnchoredIn cr pinnedRootsDer top clockMs ↔ ∃ root ∈ roots, Anchors cr root top clockMs := by
  unfold AnchoredIn
  induction h with
  | nil => simp
  | cons hder _ ih => simp [ih, hder]

/-- Anchoring at one chain and time: every order of the roots gives the same
decision, to accept exactly when some root anchors the top certificate. -/
def AnchoringOrderFree (cr : Crates) (pinnedRootsDer chain : List Bytes) (clockMs : UInt64) :
    Prop :=
  ∀ rootsDer, rootsDer.Perm pinnedRootsDer →
    (Accepts cr rootsDer chain clockMs ↔
      ∃ top, ReachesTop cr chain clockMs top ∧ AnchoredIn cr pinnedRootsDer top clockMs)

/-- Anchoring is independent of the order of the roots exactly when the chain
fails an earlier check, or no root anchors it, or every root parses and each one
whose key verifies the top certificate anchors it. -/
theorem anchoringOrderFree_iff :
    AnchoringOrderFree cr pinnedRootsDer chain clockMs ↔
      ∀ top, ReachesTop cr chain clockMs top → AnchoredIn cr pinnedRootsDer top clockMs →
        ∃ roots, ParsesTo cr pinnedRootsDer roots ∧ NoneExpired cr roots top clockMs := by
  constructor
  · intro h top htop hanchored
    have haccepts : ∀ rootsDer, rootsDer.Perm pinnedRootsDer →
        ∃ roots, ParsesTo cr rootsDer roots ∧ anchor cr top clockMs roots = .ok true := by
      intro rootsDer hperm
      obtain ⟨top', htop', hroots⟩ := accepts_iff.mp ((h rootsDer hperm).mpr ⟨top, htop, hanchored⟩)
      obtain rfl := htop.unique htop'
      exact hroots
    obtain ⟨roots, hroots, -⟩ := haccepts _ (.refl _)
    refine ⟨roots, hroots, fun root hroot hsigns => ?_⟩
    by_contra hnot
    -- with the offending root moved to the front, the search ends at it
    obtain ⟨rootsDer, hperm, hparsed⟩ :=
      (congrFun₂ List.forall₂_comp_perm_eq_perm_comp_forall₂ _ _).mp
        ⟨roots, hroots, List.perm_cons_erase hroot⟩
    obtain ⟨roots', hroots', hanchor⟩ := haccepts rootsDer hperm.symm
    obtain rfl := hroots'.unique hparsed
    exact anchor_cons_ne hsigns hnot hanchor
  · intro h rootsDer hperm
    rw [accepts_iff]
    constructor
    · rintro ⟨top, htop, roots, hroots, hanchor⟩
      obtain ⟨der, hder, root, hroot⟩ := (anchoredIn_iff hroots).mpr (exists_anchors hanchor)
      exact ⟨top, htop, der, hperm.mem_iff.mp hder, root, hroot⟩
    · rintro ⟨top, htop, hanchored⟩
      obtain ⟨roots, hroots, hnone⟩ := h top htop hanchored
      obtain ⟨roots', hroots', hperm'⟩ := List.perm_comp_forall₂ hperm hroots
      obtain ⟨root, hroot, hanchor⟩ := (anchoredIn_iff hroots).mp hanchored
      refine ⟨top, htop, roots', hroots', anchor_of_noneExpired ?_ ?_⟩
      · exact fun root hroot => hnone root (hperm'.mem_iff.mp hroot)
      · exact ⟨root, hperm'.mem_iff.mpr hroot, hanchor⟩

/-! ### A root issued again -/

/-- A chain under the key `[0x0A]`, and two roots that hold the key: one that has
expired after the first millisecond, and its successor. -/
def reissuedRoots : List Certificate :=
  let expired := Crates.issue [3] [3] [0x0A] [0x0A] [Crates.caExtension]
  [Crates.issue [1] [1] [0x0B] [0x0A] [],
    { expired with tbsCertificate.validity := ⟨.utcTime 0, .utcTime 0⟩ },
    Crates.issue [4] [4] [0x0A] [0x0A] [Crates.caExtension]]

/-- The chain is accepted when the valid root comes first and refused when the
expired one does. -/
theorem reissuedRoots_ordered :
    ¬ AnchoringOrderFree (.ofTables reissuedRoots []) [[4], [3]] [[1]] 1 := by
  intro h
  have hfirst : Accepts (.ofTables reissuedRoots []) [[4], [3]] [[1]] 1 :=
    exists_eq_ok (by decide +kernel)
  have hsecond : Accepts (.ofTables reissuedRoots []) [[3], [4]] [[1]] 1 :=
    (h _ (by decide)).mpr ((h _ (.refl _)).mp hfirst)
  obtain ⟨leaf, hleaf⟩ := hsecond
  have hrefused : (validateChain (.ofTables reissuedRoots []) [[3], [4]] [[1]] 1).isOk = false := by
    decide +kernel
  rw [hleaf] at hrefused
  cases hrefused

end Attestation.Android
