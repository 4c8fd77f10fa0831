import Attestation.Base.Der

/-! The identifier and length octets of BER, of which DER allows the shortest. An
identifier gives a class, a constructed bit and a tag number of any size, in the
first octet or in base 128 behind it; a length stands in one octet or behind a
count of octets. Both are self-delimiting, so a byte string starts with at most
one of each. -/

namespace Attestation.Ber

/-! ### Tag numbers in base 128 -/

/-- Octets with the high bit set, up to the first one without. -/
inductive Continued : Bytes → Prop
  | last {b : UInt8} (h : b.toNat < 128) : Continued [b]
  | more {b : UInt8} {bs : Bytes} (h : 128 ≤ b.toNat) (hbs : Continued bs) : Continued (b :: bs)

/-- The number that seven bits of each octet write behind `n`. -/
def base128 (n : ℕ) (bs : Bytes) : ℕ := bs.foldl (fun n b => 128 * n + b.toNat % 128) n

@[simp] theorem base128_nil (n : ℕ) : base128 n [] = n := rfl

@[simp] theorem base128_cons (n : ℕ) (b : UInt8) (bs : Bytes) :
    base128 n (b :: bs) = base128 (128 * n + b.toNat % 128) bs := rfl

/-- Reducing the number in front reduces the result. -/
theorem base128_mod (m n : ℕ) (bs : Bytes) : base128 (n % m) bs % m = base128 n bs % m := by
  induction bs generalizing n with
  | nil => simp
  | cons b bs ih =>
    rw [base128_cons, base128_cons, ← ih, ← ih (128 * n + _)]
    congr 2
    rw [Nat.add_mod, Nat.mul_mod, Nat.mod_mod, ← Nat.mul_mod, ← Nat.add_mod]

theorem Continued.unique {as bs r s : Bytes} (ha : Continued as) (hb : Continued bs)
    (h : as ++ r = bs ++ s) : as = bs ∧ r = s := by
  induction ha generalizing bs with
  | last ha =>
    cases hb with
    | last hb =>
      obtain ⟨rfl, rfl⟩ := List.cons.inj h
      exact ⟨rfl, rfl⟩
    | more hb =>
      obtain ⟨rfl, -⟩ := List.cons.inj h
      omega
  | more ha _ ih =>
    cases hb with
    | last hb =>
      obtain ⟨rfl, -⟩ := List.cons.inj h
      omega
    | more hb hbs =>
      obtain ⟨rfl, htail⟩ := List.cons.inj h
      obtain ⟨rfl, rfl⟩ := ih hbs htail
      exact ⟨rfl, rfl⟩

/-! ### Identifiers -/

/-- Universal, application, context-specific or private, from 0 to 3. -/
def tagClass (first : UInt8) : ℕ := first.toNat / 64

def isConstructed (first : UInt8) : Bool := first.toNat / 32 % 2 = 1

/-- Identifier octets that start with `first` and give a tag number. -/
inductive Identifier : Bytes → UInt8 → ℕ → Prop
  | short {first : UInt8} (h : first.toNat % 32 < 31) :
      Identifier [first] first (first.toNat % 32)
  | long {first : UInt8} {bs : Bytes} (h : first.toNat % 32 = 31) (hbs : Continued bs) :
      Identifier (first :: bs) first (base128 0 bs)

theorem Identifier.unique {as bs r s : Bytes} {a b : UInt8} {m n : ℕ} (ha : Identifier as a m)
    (hb : Identifier bs b n) (h : as ++ r = bs ++ s) : as = bs ∧ a = b ∧ m = n ∧ r = s := by
  cases ha with
  | short ha =>
    cases hb with
    | short hb =>
      obtain ⟨rfl, rfl⟩ := List.cons.inj h
      exact ⟨rfl, rfl, rfl, rfl⟩
    | long hb =>
      obtain ⟨rfl, -⟩ := List.cons.inj h
      omega
  | long ha hcs =>
    cases hb with
    | short hb =>
      obtain ⟨rfl, -⟩ := List.cons.inj h
      omega
    | long hb hds =>
      obtain ⟨rfl, htail⟩ := List.cons.inj h
      obtain ⟨rfl, rfl⟩ := hcs.unique hds htail
      exact ⟨rfl, rfl, rfl, rfl⟩

theorem Identifier.exists_cons {bs : Bytes} {first : UInt8} {tag : ℕ}
    (h : Identifier bs first tag) : ∃ rest, bs = first :: rest := by
  cases h <;> exact ⟨_, rfl⟩

/-! ### Lengths -/

/-- Length octets that give a length. -/
inductive LengthOctets : Bytes → ℕ → Prop
  | short {b : UInt8} (h : b.toNat < 128) : LengthOctets [b] b.toNat
  | long {b : UInt8} {octets : Bytes} (h : b.toNat = 128 + octets.length)
      (hpos : 1 ≤ octets.length) : LengthOctets (b :: octets) (ofBe octets)

theorem LengthOctets.unique {as bs r s : Bytes} {m n : ℕ} (ha : LengthOctets as m)
    (hb : LengthOctets bs n) (h : as ++ r = bs ++ s) : as = bs ∧ m = n ∧ r = s := by
  cases ha with
  | short ha =>
    cases hb with
    | short hb =>
      obtain ⟨rfl, rfl⟩ := List.cons.inj h
      exact ⟨rfl, rfl, rfl⟩
    | long hb =>
      obtain ⟨rfl, -⟩ := List.cons.inj h
      omega
  | long ha =>
    cases hb with
    | short hb =>
      obtain ⟨rfl, -⟩ := List.cons.inj h
      omega
    | long hb =>
      obtain ⟨rfl, htail⟩ := List.cons.inj h
      obtain ⟨rfl, rfl⟩ := List.append_inj htail (by omega)
      exact ⟨rfl, rfl, rfl⟩

theorem LengthOctets.exists_cons {bs : Bytes} {n : ℕ} (h : LengthOctets bs n) :
    ∃ b rest, bs = b :: rest := by
  cases h <;> exact ⟨_, _, rfl⟩

/-- Four octets behind the count give a length of at most 32 bits. -/
theorem LengthOctets.lt_of_length_le {bs : Bytes} {n : ℕ} (h : LengthOctets bs n)
    (hbs : bs.length ≤ 5) : n < 2 ^ 32 := by
  cases h with
  | short h => omega
  | @long _ octets h hpos =>
    rw [List.length_cons] at hbs
    have hpow : 256 ^ octets.length ≤ 256 ^ 4 := Nat.pow_le_pow_right (by norm_num) (by omega)
    exact lt_of_lt_of_le (ofBe_lt octets) (hpow.trans (by norm_num))

/-! ### The shortest octets -/

/-- An arc of an object identifier has the form of a long tag number. -/
theorem continued_arc (n : ℕ) : Continued (Der.arc n) := by
  have hdigits := ulebDigits_lt n
  unfold Der.arc
  cases hd : ulebDigits n with
  | nil => exact absurd hd (ulebDigits_ne_nil n)
  | cons d ds =>
    rw [hd] at hdigits
    have hhigh : ∀ e ∈ ds.reverse, e < 128 :=
      fun e he => hdigits e (List.mem_cons_of_mem d (List.mem_reverse.mp he))
    have hlast : Continued [UInt8.ofNat d] := by
      have hd128 := hdigits d (by simp)
      refine .last ?_
      rw [UInt8.toNat_ofNat']
      omega
    change Continued (ds.reverse.map _ ++ [UInt8.ofNat d])
    generalize ds.reverse = es at hhigh
    induction es with
    | nil => exact hlast
    | cons e es ih =>
      have he := hhigh e (by simp)
      refine .more ?_ (ih fun x hx => hhigh x (List.mem_cons_of_mem e hx))
      rw [UInt8.toNat_ofNat']
      omega

theorem base128_digits {ds : List ℕ} (h : ∀ d ∈ ds, d < 128) (n : ℕ) :
    base128 n (ds.map fun d => UInt8.ofNat (d + 128)) =
      128 ^ ds.length * n + Nat.ofDigits 128 ds.reverse := by
  induction ds generalizing n with
  | nil => simp
  | cons d ds ih =>
    have hd := h d (by simp)
    have hbyte : (UInt8.ofNat (d + 128)).toNat % 128 = d := by
      rw [UInt8.toNat_ofNat']
      omega
    rw [List.map_cons, base128_cons, hbyte, ih fun x hx => h x (List.mem_cons_of_mem d hx),
      List.reverse_cons, Nat.ofDigits_append, Nat.ofDigits_singleton, List.length_reverse,
      List.length_cons, pow_succ]
    ring

theorem base128_arc (n : ℕ) : base128 0 (Der.arc n) = n := by
  have hdigits := ulebDigits_lt n
  have hvalue := ofDigits_ulebDigits n
  unfold Der.arc
  cases hd : ulebDigits n with
  | nil => exact absurd hd (ulebDigits_ne_nil n)
  | cons d ds =>
    rw [hd] at hdigits hvalue
    have hd128 := hdigits d (by simp)
    have hlow : (UInt8.ofNat d).toNat % 128 = d := by
      rw [UInt8.toNat_ofNat']
      omega
    have hhigh := base128_digits
      (fun e he => hdigits e (List.mem_cons_of_mem d (List.mem_reverse.mp he))) 0
    rw [List.reverse_reverse] at hhigh
    rw [Nat.ofDigits_cons] at hvalue
    simp only [base128, List.foldl_append, List.foldl_cons, List.foldl_nil] at hhigh ⊢
    rw [hhigh, hlow]
    simpa [add_comm] using hvalue

/-- The first identifier octet: class, constructed bit and five low bits. -/
def firstOctet (cls : ℕ) (constructed : Bool) (low : ℕ) : UInt8 :=
  UInt8.ofNat (64 * cls + 32 * constructed.toNat + low)

theorem firstOctet_spec {cls low : ℕ} (hcls : cls < 4) (constructed : Bool) (hlow : low < 32) :
    (firstOctet cls constructed low).toNat % 32 = low ∧
      tagClass (firstOctet cls constructed low) = cls ∧
      isConstructed (firstOctet cls constructed low) = constructed := by
  have hbit := constructed.toNat_le
  have hvalue : (firstOctet cls constructed low).toNat = 64 * cls + 32 * constructed.toNat + low := by
    rw [firstOctet, UInt8.toNat_ofNat']
    omega
  rw [tagClass, isConstructed, hvalue]
  refine ⟨by omega, by omega, ?_⟩
  cases constructed <;> simp <;> omega

/-- The identifier octets of DER. -/
def identifier (cls : ℕ) (constructed : Bool) (tag : ℕ) : Bytes :=
  if tag < 31 then [firstOctet cls constructed tag]
  else firstOctet cls constructed 31 :: Der.arc tag

theorem identifier_spec {cls : ℕ} (hcls : cls < 4) (constructed : Bool) (tag : ℕ) :
    ∃ first, Identifier (identifier cls constructed tag) first tag ∧ tagClass first = cls ∧
      isConstructed first = constructed := by
  unfold identifier
  by_cases htag : tag < 31
  · obtain ⟨hlow, hspec⟩ := firstOctet_spec hcls constructed (by omega : tag < 32)
    have hshort : Identifier [firstOctet cls constructed tag] _ _ := .short (by omega)
    rw [hlow] at hshort
    rw [if_pos htag]
    exact ⟨_, hshort, hspec⟩
  · obtain ⟨hlow, hspec⟩ := firstOctet_spec hcls constructed (by omega : 31 < 32)
    have hlong := Identifier.long hlow (continued_arc tag)
    rw [base128_arc] at hlong
    rw [if_neg htag]
    exact ⟨_, hlong, hspec⟩

theorem lengthOctets_encodeLength {n : ℕ} (h : n ≤ Der.maxLength) :
    LengthOctets (Der.encodeLength n) n := by
  unfold Der.encodeLength
  split_ifs with hn
  · have hb : (UInt8.ofNat n).toNat = n := by
      rw [UInt8.toNat_ofNat', Nat.mod_eq_of_lt (by omega)]
    have hshort : LengthOctets [UInt8.ofNat n] _ := .short (by rw [hb]; exact hn)
    rwa [hb] at hshort
  · obtain ⟨hk1, hk4⟩ := Der.lengthOctets_bounds n
    have hb : (UInt8.ofNat (0x80 + Der.lengthOctets n)).toNat = 128 + Der.lengthOctets n := by
      rw [UInt8.toNat_ofNat', Nat.mod_eq_of_lt (by omega)]
    have hlong : LengthOctets (_ :: beBytes (Der.lengthOctets n) n) _ :=
      .long (by rw [hb, length_beBytes]) (by rw [length_beBytes]; exact hk1)
    rwa [ofBe_beBytes, Nat.mod_eq_of_lt (Der.lt_pow_lengthOctets h)] at hlong

theorem length_encodeLength_le (n : ℕ) : (Der.encodeLength n).length ≤ 5 := by
  obtain ⟨-, hk4⟩ := Der.lengthOctets_bounds n
  unfold Der.encodeLength
  split_ifs
  · simp
  · rw [List.length_cons, length_beBytes]
    omega

end Attestation.Ber
