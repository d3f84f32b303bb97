import Mathlib.Data.Set.Function
import ManagedRuntime.Proofs.Encoding.Utf8
import ManagedRuntime.Text.Encoding

/-!
# Texts and UTF-8 back and forth

* `units_ofOctets_toOctets`, `toOctets_ofOctets` : what is left of a text and of octets on the way there and back;
* `conversions_invert` : only unpaired surrogates and broken sequences are lost, and between well-formed texts and
  valid octets the two conversions are inverse bijections.
-/

namespace ManagedRuntime.Text

set_option autoImplicit false

theorem units_ofOctets_toOctets (t : Text) : (ofOctets t.toOctets).units = Utf16.withoutUnpaired t.units := by
  rw [ofOctets, toOctets, characters, Utf8.decode_encode, ofCharacters, Utf16.encode_decode]

theorem toOctets_ofOctets (octets : List UInt8) : (ofOctets octets).toOctets = Utf8.encode (Utf8.decode octets) := by
  rw [toOctets, characters, ofOctets, ofCharacters, Utf16.decode_encode]

theorem ofOctets_toOctets_eq_iff (t : Text) : ofOctets t.toOctets = t ↔ Utf16.WellFormed t.units := by
  rw [← Utf16.withoutUnpaired_eq_iff, ← units_ofOctets_toOctets]
  exact ⟨congrArg units, fun h => congrArg mk h⟩

theorem toOctets_ofOctets_eq_iff (octets : List UInt8) : (ofOctets octets).toOctets = octets ↔ Utf8.Valid octets := by
  rw [toOctets_ofOctets]
  constructor
  · exact fun h => ⟨_, h⟩
  · rintro ⟨cs, rfl⟩
    rw [Utf8.decode_encode]

theorem valid_toOctets (t : Text) : Utf8.Valid t.toOctets := ⟨t.characters, rfl⟩

theorem wellFormed_ofOctets (octets : List UInt8) : Utf16.WellFormed (ofOctets octets).units :=
  Utf16.wellFormed_encode _

/--
**The two conversions are inverse up to what they drop.** A text loses its unpaired surrogates and nothing else, octets
lose their broken sequences and nothing else; between valid octets and well-formed texts each conversion is a bijection
and the inverse of the other, and a second round trip changes nothing.
-/
theorem conversions_invert :
    (∀ t : Text, (ofOctets t.toOctets).units = Utf16.withoutUnpaired t.units) ∧
    (∀ t : Text, ofOctets t.toOctets = t ↔ Utf16.WellFormed t.units) ∧
    (∀ octets kept, Utf8.WithoutBroken octets kept ↔ (ofOctets octets).toOctets = kept) ∧
    (∀ octets, (ofOctets octets).toOctets = octets ↔ Utf8.Valid octets) ∧
    Set.BijOn ofOctets {octets | Utf8.Valid octets} {t | Utf16.WellFormed t.units} ∧
    Set.BijOn toOctets {t | Utf16.WellFormed t.units} {octets | Utf8.Valid octets} ∧
    Set.InvOn toOctets ofOctets {octets | Utf8.Valid octets} {t | Utf16.WellFormed t.units} ∧
    (∀ t : Text, ofOctets (ofOctets t.toOctets).toOctets = ofOctets t.toOctets) ∧
    ∀ octets, (ofOctets (ofOctets octets).toOctets).toOctets = (ofOctets octets).toOctets := by
  have hinv : Set.InvOn toOctets ofOctets {octets | Utf8.Valid octets} {t | Utf16.WellFormed t.units} :=
    ⟨fun octets h => (toOctets_ofOctets_eq_iff octets).2 h, fun t h => (ofOctets_toOctets_eq_iff t).2 h⟩
  have hunits : Set.MapsTo ofOctets {octets | Utf8.Valid octets} {t | Utf16.WellFormed t.units} :=
    fun octets _ => wellFormed_ofOctets octets
  have hoctets : Set.MapsTo toOctets {t | Utf16.WellFormed t.units} {octets | Utf8.Valid octets} :=
    fun t _ => valid_toOctets t
  refine ⟨units_ofOctets_toOctets, ofOctets_toOctets_eq_iff, fun octets kept => ?_, toOctets_ofOctets_eq_iff,
    hinv.bijOn hunits hoctets, hinv.symm.bijOn hoctets hunits, hinv, fun t => ?_, fun octets => ?_⟩
  · rw [toOctets_ofOctets]
    exact Utf8.withoutBroken_iff octets kept
  · exact (ofOctets_toOctets_eq_iff _).2 (wellFormed_ofOctets _)
  · exact (toOctets_ofOctets_eq_iff _).2 (valid_toOctets _)

end ManagedRuntime.Text
