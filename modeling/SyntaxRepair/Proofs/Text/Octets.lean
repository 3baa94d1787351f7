import SyntaxRepair.Text.Utf8
import Mathlib.Tactic

/-!
# Octets and back

Octets are read as a text exactly if they are its octets (`Utf8.decode_eq_ok_iff`).  The octets of a
character are one sequence, whatever stands behind them (`Utf8.readSequence_encodeChar`): the ranges
of the octets that may come second keep nothing out but what no character is written as.  And they
keep all of that out: a sequence that is read consists of the octets of its character
(`Utf8.encodeChar_of_readSequence`).
-/

namespace SyntaxRepair.Utf8

/-- A number that fits an octet is that octet. -/
theorem toNat_toUInt8 {value : Nat} (h : value < 0x100) : value.toUInt8.toNat = value :=
  Nat.mod_eq_of_lt h

/-- The characters are the code points that are no halves of surrogate pairs. -/
theorem char_range (c : Char) : c.toNat < 0xD800 ∨ 0xDFFF < c.toNat ∧ c.toNat < 0x110000 := by
  rcases c.valid with h | h
  · exact .inl h
  · exact .inr h

/-! ## What first octets ask for -/

/-- The first of two octets. -/
theorem lead?_two {code : Nat} (hlow : 0x80 ≤ code) (hhigh : code < 0x800) :
    lead? (0xC0 + code / 0x40).toUInt8 = some ⟨code / 0x40, 0x80, 0xBF, 0⟩ := by
  rw [lead?, toNat_toUInt8 (by omega)]
  rw [if_neg (by omega), if_pos (by omega), Nat.add_sub_cancel_left]

/-- The first of three octets; the second one has a narrower range for the least characters and next
to the halves of surrogate pairs. -/
theorem lead?_three {code : Nat} (hlow : 0x800 ≤ code) (hhigh : code < 0x10000)
    (hhalf : code < 0xD800 ∨ 0xDFFF < code) :
    ∃ low high, lead? (0xE0 + code / 0x1000).toUInt8 = some ⟨code / 0x1000, low, high, 1⟩ ∧
      low ≤ 0x80 + code / 0x40 % 0x40 ∧ 0x80 + code / 0x40 % 0x40 ≤ high := by
  rw [lead?, toNat_toUInt8 (by omega)]
  rw [if_neg (by omega), if_neg (by omega)]
  split
  · next hleast => exact ⟨0xA0, 0xBF, congrArg some (by simp; omega), by omega, by omega⟩
  · split
    · next hsurrogate => exact ⟨0x80, 0x9F, congrArg some (by simp; omega), by omega, by omega⟩
    · rw [if_pos (by omega), Nat.add_sub_cancel_left]
      exact ⟨_, _, rfl, by omega, by omega⟩

/-- The first of four octets; the second one has a narrower range for the least characters and the
greatest ones. -/
theorem lead?_four {code : Nat} (hlow : 0x10000 ≤ code) (hhigh : code < 0x110000) :
    ∃ low high, lead? (0xF0 + code / 0x40000).toUInt8 = some ⟨code / 0x40000, low, high, 2⟩ ∧
      low ≤ 0x80 + code / 0x1000 % 0x40 ∧ 0x80 + code / 0x1000 % 0x40 ≤ high := by
  rw [lead?, toNat_toUInt8 (by omega)]
  rw [if_neg (by omega), if_neg (by omega), if_neg (by omega), if_neg (by omega),
    if_neg (by omega)]
  split
  · next hleast => exact ⟨0x90, 0xBF, congrArg some (by simp; omega), by omega, by omega⟩
  · split
    · rw [Nat.add_sub_cancel_left]
      exact ⟨_, _, rfl, by omega, by omega⟩
    · rw [if_pos (by omega)]
      exact ⟨0x80, 0x8F, congrArg some (by simp; omega), by omega, by omega⟩

/-! ## One character -/

theorem readSequence_of_lead {first second : UInt8} {others : Octets} {bits low high more : Nat}
    (hfirst : 0x80 ≤ first.toNat) (hlead : lead? first = some ⟨bits, low, high, more⟩)
    (hlow : low ≤ second.toNat) (hhigh : second.toNat ≤ high) :
    readSequence first (second :: others) =
      readMore (bits * 64 + (second.toNat - 0x80)) 2 more others := by
  rw [readSequence, if_neg (Nat.not_lt.mpr hfirst), hlead]
  simp [hlow, hhigh]

/-- An octet that is still due adds its six bits. -/
theorem readMore_cons {bits length more value : Nat} {rest : Octets} (h : value < 0x40) :
    readMore bits length (more + 1) ((0x80 + value).toUInt8 :: rest) =
      readMore (bits * 64 + value) (length + 1) more rest := by
  have hlow : 0x80 ≤ 0x80 + value := by omega
  have hhigh : 0x80 + value ≤ 0xBF := by omega
  rw [readMore, toNat_toUInt8 (by omega), Nat.add_sub_cancel_left]
  simp [hhigh]

theorem readSequence_two {code : Nat} (hlow : 0x80 ≤ code) (hhigh : code < 0x800)
    (rest : Octets) :
    readSequence (0xC0 + code / 0x40).toUInt8 ((0x80 + code % 0x40).toUInt8 :: rest) =
      .char (Char.ofNat code) 2 := by
  have hfirst : 0x80 ≤ (0xC0 + code / 0x40).toUInt8.toNat := by
    rw [toNat_toUInt8 (by omega)]
    omega
  have hsecond : (0x80 + code % 0x40).toUInt8.toNat = 0x80 + code % 0x40 :=
    toNat_toUInt8 (by omega)
  have hcode : code / 0x40 * 64 + (0x80 + code % 0x40 - 0x80) = code := by omega
  rw [readSequence_of_lead hfirst (lead?_two hlow hhigh) (by omega) (by omega), hsecond, hcode,
    readMore]

theorem readSequence_three {code : Nat} (hlow : 0x800 ≤ code) (hhigh : code < 0x10000)
    (hhalf : code < 0xD800 ∨ 0xDFFF < code) (rest : Octets) :
    readSequence (0xE0 + code / 0x1000).toUInt8
        ((0x80 + code / 0x40 % 0x40).toUInt8 :: (0x80 + code % 0x40).toUInt8 :: rest) =
      .char (Char.ofNat code) 3 := by
  obtain ⟨low, high, hlead, hleast, hgreatest⟩ := lead?_three hlow hhigh hhalf
  have hfirst : 0x80 ≤ (0xE0 + code / 0x1000).toUInt8.toNat := by
    rw [toNat_toUInt8 (by omega)]
    omega
  have hsecond : (0x80 + code / 0x40 % 0x40).toUInt8.toNat = 0x80 + code / 0x40 % 0x40 :=
    toNat_toUInt8 (by omega)
  have hcode : (code / 0x1000 * 64 + (0x80 + code / 0x40 % 0x40 - 0x80)) * 64 + code % 0x40 =
      code := by omega
  rw [readSequence_of_lead hfirst hlead (hsecond.symm ▸ hleast) (hsecond.symm ▸ hgreatest),
    hsecond, readMore_cons (by omega), hcode, readMore]

theorem readSequence_four {code : Nat} (hlow : 0x10000 ≤ code) (hhigh : code < 0x110000)
    (rest : Octets) :
    readSequence (0xF0 + code / 0x40000).toUInt8
        ((0x80 + code / 0x1000 % 0x40).toUInt8 :: (0x80 + code / 0x40 % 0x40).toUInt8 ::
          (0x80 + code % 0x40).toUInt8 :: rest) =
      .char (Char.ofNat code) 4 := by
  obtain ⟨low, high, hlead, hleast, hgreatest⟩ := lead?_four hlow hhigh
  have hfirst : 0x80 ≤ (0xF0 + code / 0x40000).toUInt8.toNat := by
    rw [toNat_toUInt8 (by omega)]
    omega
  have hsecond : (0x80 + code / 0x1000 % 0x40).toUInt8.toNat = 0x80 + code / 0x1000 % 0x40 :=
    toNat_toUInt8 (by omega)
  have hcode : ((code / 0x40000 * 64 + (0x80 + code / 0x1000 % 0x40 - 0x80)) * 64 +
      code / 0x40 % 0x40) * 64 + code % 0x40 = code := by omega
  rw [readSequence_of_lead hfirst hlead (hsecond.symm ▸ hleast) (hsecond.symm ▸ hgreatest),
    hsecond, readMore_cons (by omega), readMore_cons (by omega), hcode, readMore]

/-- The octets of a character are read as that character. -/
theorem readSequence_encodeChar (c : Char) :
    ∃ first tail, encodeChar c = first :: tail ∧
      ∀ rest, readSequence first (tail ++ rest) = .char c (tail.length + 1) := by
  have hrange := char_range c
  have hchar : Char.ofNat c.toNat = c := Char.ofNat_toNat c
  unfold encodeChar
  generalize c.toNat = code at hrange hchar
  subst hchar
  dsimp only
  split
  · next hone =>
    refine ⟨_, [], rfl, fun rest => ?_⟩
    rw [readSequence, toNat_toUInt8 (by omega), if_pos hone]
    rfl
  · next hone =>
    split
    · next htwo => exact ⟨_, [_], rfl, readSequence_two (Nat.not_lt.mp hone) htwo⟩
    · next htwo =>
      split
      · next hthree =>
        exact ⟨_, [_, _], rfl, readSequence_three (Nat.not_lt.mp htwo) hthree (by omega)⟩
      · next hthree =>
        exact ⟨_, [_, _, _], rfl, readSequence_four (Nat.not_lt.mp hthree) (by omega)⟩

/-! ## One sequence -/

/-- What two octets that begin a sequence stand for, by the number of those that are still due.  It
leaves out the forms that are too long, the halves of surrogate pairs and all beyond the greatest
character. -/
theorem range_of_lead? {first : UInt8} {second bits low high more : Nat}
    (hlead : lead? first = some ⟨bits, low, high, more⟩) (hlow : low ≤ second)
    (hhigh : second ≤ high) :
    0x80 ≤ second ∧ second ≤ 0xBF ∧
      (more = 0 ∧ first.toNat = 0xC0 + bits ∧ 2 ≤ bits ∧ bits < 0x20 ∨
        more = 1 ∧ first.toNat = 0xE0 + bits ∧ 0x20 ≤ bits * 64 + (second - 0x80) ∧
          (bits * 64 + (second - 0x80) < 0x360 ∨
            0x37F < bits * 64 + (second - 0x80) ∧ bits * 64 + (second - 0x80) < 0x400) ∨
        more = 2 ∧ first.toNat = 0xF0 + bits ∧ 0x10 ≤ bits * 64 + (second - 0x80) ∧
          bits * 64 + (second - 0x80) < 0x110) := by
  simp only [lead?] at hlead
  split_ifs at hlead <;> simp only [Option.some.injEq, Lead.mk.injEq] at hlead <;> omega

theorem exists_of_readMore_succ {bits length more count : Nat} {rest : Octets} {c : Char}
    (h : readMore bits length (more + 1) rest = .char c count) :
    ∃ octet others, rest = octet :: others ∧ 0x80 ≤ octet.toNat ∧ octet.toNat ≤ 0xBF ∧
      readMore (bits * 64 + (octet.toNat - 0x80)) (length + 1) more others = .char c count := by
  cases rest with
  | nil => cases h
  | cons octet others =>
      rw [readMore] at h
      split at h
      · next hrange =>
        obtain ⟨hlow, hhigh⟩ := Bool.and_eq_true_iff.mp hrange
        exact ⟨octet, others, rfl, of_decide_eq_true hlow, of_decide_eq_true hhigh, h⟩
      · cases h

theorem toNat_charOfNat {code : Nat} (h : code.isValidChar) : (Char.ofNat code).toNat = code := by
  rw [Char.ofNat, dif_pos h]
  rfl

theorem toUInt8_eq {value : Nat} {octet : UInt8} (h : value = octet.toNat) :
    value.toUInt8 = octet := by
  rw [h]
  exact UInt8.ofNat_toNat

theorem encodeChar_one {first : UInt8} (h : first.toNat < 0x80) :
    encodeChar (Char.ofNat first.toNat) = [first] := by
  rw [encodeChar, toNat_charOfNat (.inl (by omega)), if_pos h, toUInt8_eq rfl]

theorem encodeChar_two {first second : UInt8} {code : Nat} (hlow : 0x80 ≤ code)
    (hhigh : code < 0x800) (hfirst : 0xC0 + code / 0x40 = first.toNat)
    (hsecond : 0x80 + code % 0x40 = second.toNat) :
    encodeChar (Char.ofNat code) = [first, second] := by
  rw [encodeChar, toNat_charOfNat (.inl (by omega)), if_neg (by omega), if_pos hhigh,
    toUInt8_eq hfirst, toUInt8_eq hsecond]

theorem encodeChar_three {first second third : UInt8} {code : Nat} (hlow : 0x800 ≤ code)
    (hhigh : code < 0x10000) (hhalf : code < 0xD800 ∨ 0xDFFF < code)
    (hfirst : 0xE0 + code / 0x1000 = first.toNat)
    (hsecond : 0x80 + code / 0x40 % 0x40 = second.toNat)
    (hthird : 0x80 + code % 0x40 = third.toNat) :
    encodeChar (Char.ofNat code) = [first, second, third] := by
  have hvalid : code.isValidChar := hhalf.imp_right fun h => ⟨h, by omega⟩
  rw [encodeChar, toNat_charOfNat hvalid, if_neg (by omega), if_neg (by omega), if_pos hhigh,
    toUInt8_eq hfirst, toUInt8_eq hsecond, toUInt8_eq hthird]

theorem encodeChar_four {first second third fourth : UInt8} {code : Nat} (hlow : 0x10000 ≤ code)
    (hhigh : code < 0x110000) (hfirst : 0xF0 + code / 0x40000 = first.toNat)
    (hsecond : 0x80 + code / 0x1000 % 0x40 = second.toNat)
    (hthird : 0x80 + code / 0x40 % 0x40 = third.toNat)
    (hfourth : 0x80 + code % 0x40 = fourth.toNat) :
    encodeChar (Char.ofNat code) = [first, second, third, fourth] := by
  rw [encodeChar, toNat_charOfNat (.inr ⟨by omega, hhigh⟩), if_neg (by omega), if_neg (by omega),
    if_neg (by omega), toUInt8_eq hfirst, toUInt8_eq hsecond, toUInt8_eq hthird,
    toUInt8_eq hfourth]

/-- A sequence of at least two octets, by the number of those that are due behind the second. -/
theorem encodeChar_of_readMore {first second : UInt8} {others : Octets}
    {bits low high more length : Nat} {c : Char}
    (hlead : lead? first = some ⟨bits, low, high, more⟩) (hlow : low ≤ second.toNat)
    (hhigh : second.toNat ≤ high)
    (h : readMore (bits * 64 + (second.toNat - 0x80)) 2 more others = .char c length) :
    encodeChar c ++ (second :: others).drop (length - 1) = first :: second :: others := by
  obtain ⟨hleast, hgreatest, hcases⟩ := range_of_lead? hlead hlow hhigh
  rcases hcases with ⟨rfl, hfirst, _, _⟩ | ⟨rfl, hfirst, _, _⟩ | ⟨rfl, hfirst, _, _⟩
  · rw [readMore, Reading.char.injEq] at h
    obtain ⟨rfl, rfl⟩ := h
    have hoctets : encodeChar (.ofNat (bits * 64 + (second.toNat - 0x80))) = [first, second] :=
      encodeChar_two (by omega) (by omega) (by omega) (by omega)
    rw [hoctets]
    rfl
  · obtain ⟨third, others, rfl, _, _, hread⟩ := exists_of_readMore_succ h
    rw [readMore, Reading.char.injEq] at hread
    obtain ⟨rfl, rfl⟩ := hread
    have hoctets : encodeChar (.ofNat ((bits * 64 + (second.toNat - 0x80)) * 64 +
        (third.toNat - 0x80))) = [first, second, third] :=
      encodeChar_three (by omega) (by omega) (by omega) (by omega) (by omega) (by omega)
    rw [hoctets]
    rfl
  · obtain ⟨third, others, rfl, _, _, hread⟩ := exists_of_readMore_succ h
    obtain ⟨fourth, others, rfl, _, _, hread⟩ := exists_of_readMore_succ hread
    rw [readMore, Reading.char.injEq] at hread
    obtain ⟨rfl, rfl⟩ := hread
    have hoctets : encodeChar (.ofNat (((bits * 64 + (second.toNat - 0x80)) * 64 +
        (third.toNat - 0x80)) * 64 + (fourth.toNat - 0x80))) = [first, second, third, fourth] :=
      encodeChar_four (by omega) (by omega) (by omega) (by omega) (by omega) (by omega)
    rw [hoctets]
    rfl

/-- A sequence that is read consists of the octets of its character. -/
theorem encodeChar_of_readSequence {first : UInt8} {rest : Octets} {c : Char} {length : Nat}
    (h : readSequence first rest = .char c length) :
    encodeChar c ++ rest.drop (length - 1) = first :: rest := by
  rw [readSequence] at h
  split at h
  · next hone =>
    cases h
    rw [encodeChar_one hone]
    rfl
  · split at h
    · cases h
    · next lead hlead =>
      cases rest with
      | nil => cases h
      | cons second others =>
          dsimp only at h
          split at h
          · next hrange =>
            obtain ⟨hlow, hhigh⟩ := Bool.and_eq_true_iff.mp hrange
            exact encodeChar_of_readMore hlead (of_decide_eq_true hlow) (of_decide_eq_true hhigh) h
          · cases h

/-! ## Whole texts -/

theorem decodeFrom_of_encodeFrom {text : Text} {octets : Octets} {start : Nat} (position : Nat)
    (h : encodeFrom start text = .ok octets) : decodeFrom position octets = .ok text := by
  induction text generalizing octets start position with
  | nil =>
      cases h
      rw [decodeFrom]
  | cons codePoint rest ih =>
      cases codePoint with
      | half place => cases h
      | char c =>
          rw [encodeFrom] at h
          cases hrest : encodeFrom (start + 1) rest with
          | error fault =>
              rw [hrest] at h
              cases h
          | ok others =>
              rw [hrest] at h
              obtain rfl := Except.ok.inj h
              obtain ⟨first, tail, hencode, hread⟩ := readSequence_encodeChar c
              rw [hencode, List.cons_append, decodeFrom, hread]
              dsimp only
              rw [Nat.add_sub_cancel, List.drop_left, ih _ hrest]

/-- **Octets and back.**  A text that has octets is read back from them. -/
theorem decode_encode {text : Text} {octets : Octets} (h : encode text = .ok octets) :
    decode octets = .ok text :=
  decodeFrom_of_encodeFrom 0 h

theorem encodeFrom_of_decodeFrom {text : Text} {octets : Octets} {position : Nat} (start : Nat)
    (h : decodeFrom position octets = .ok text) : encodeFrom start text = .ok octets := by
  induction position, octets using decodeFrom.induct generalizing text start with
  | case1 position =>
      rw [decodeFrom] at h
      cases h
      rfl
  | case2 position first rest c length hread found hfound ih =>
      rw [decodeFrom, hread] at h
      dsimp only at h
      rw [hfound] at h
      cases h
      rw [encodeFrom, ih _ hfound]
      exact congrArg Except.ok (encodeChar_of_readSequence hread)
  | case3 position first rest c length hread fault hfault =>
      rw [decodeFrom, hread] at h
      dsimp only at h
      rw [hfault] at h
      cases h
  | case4 position first rest length reason hread =>
      rw [decodeFrom, hread] at h
      cases h

/-- Octets are read as a text exactly if they are its octets. -/
theorem decode_eq_ok_iff {text : Text} {octets : Octets} :
    decode octets = .ok text ↔ encode text = .ok octets :=
  ⟨encodeFrom_of_decodeFrom 0, decode_encode⟩

end SyntaxRepair.Utf8
