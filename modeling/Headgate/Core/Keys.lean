import Headgate.Core.Envelope

/-!
# Keys and fingerprints decode

Unique keys and the input of the fingerprint hash join fields of any bytes.  A length in
front of a field says where the next one begins, so the joined bytes determine the fields.
-/

namespace Headgate.Core

/-- The four bytes of a length, least significant first. -/
def lengthBytesLe (n : Nat) : Bytes := (lengthBytes n).reverse

/-- What `fingerprint` feeds to the hash. -/
def fingerprintInput (kind : String) (payload : Bytes) : Bytes :=
  lengthBytesLe kind.utf8ByteSize ++ utf8 kind ++ lengthBytesLe payload.length ++ payload

theorem lengthBytes_inj {n m : Nat} (hn : n < 2 ^ 32) (hm : m < 2 ^ 32)
    (h : lengthBytes n = lengthBytes m) : n = m := by
  simp only [lengthBytes, List.cons.injEq, and_true, ← UInt8.toNat_inj, UInt8.toNat_ofNat'] at h
  omega

theorem utf8_inj {s t : String} (h : utf8 s = utf8 t) : s = t := by
  apply String.toByteArray_inj.mp
  apply ByteArray.ext
  exact Array.toList_inj.mp h

theorem utf8_length (s : String) : (utf8 s).length = s.utf8ByteSize := rfl

/-- A text behind its length can be told from what follows it. -/
theorem framed_inj {len : Nat → Bytes} (width : ∀ n, (len n).length = 4)
    (inj : ∀ {n m}, n < 2 ^ 32 → m < 2 ^ 32 → len n = len m → n = m) {s t : String}
    {r r' : Bytes} (hs : s.utf8ByteSize < 2 ^ 32) (ht : t.utf8ByteSize < 2 ^ 32)
    (h : len s.utf8ByteSize ++ utf8 s ++ r = len t.utf8ByteSize ++ utf8 t ++ r') :
    s = t ∧ r = r' := by
  rw [List.append_assoc, List.append_assoc] at h
  obtain ⟨hlength, hrest⟩ := List.append_inj h ((width _).trans (width _).symm)
  have hsize := inj hs ht hlength
  obtain ⟨htext, hr⟩ := List.append_inj hrest (by rw [utf8_length, utf8_length, hsize])
  exact ⟨utf8_inj htext, hr⟩

/-- **Keys and fingerprint inputs are injective**, for kinds shorter than four gigabytes. -/
theorem keys_and_fingerprints_injective :
    (∀ (e e' : Envelope) (key : Bytes), e.kind.utf8ByteSize < 2 ^ 32 →
      e'.kind.utf8ByteSize < 2 ^ 32 → effectiveUniqueKey e = some key →
      effectiveUniqueKey e' = some key → e.uniqueKey = e'.uniqueKey ∧
        e.uniqueExcludeKind = e'.uniqueExcludeKind ∧
        (e.uniqueExcludeKind = false → e.kind = e'.kind)) ∧
    ∀ (kind kind' : String) (payload payload' : Bytes), kind.utf8ByteSize < 2 ^ 32 →
      kind'.utf8ByteSize < 2 ^ 32 →
      fingerprintInput kind payload = fingerprintInput kind' payload' →
        kind = kind' ∧ payload = payload' := by
  constructor
  · intro e e' key hkind hkind' he he'
    obtain ⟨raw, hraw, hkey⟩ := Option.map_eq_some_iff.mp he
    obtain ⟨raw', hraw', hkey'⟩ := Option.map_eq_some_iff.mp he'
    rw [hraw, hraw', Option.some_inj]
    rw [← hkey'] at hkey
    -- the second byte tells the two namespaces apart
    cases hexclude : e.uniqueExcludeKind <;> cases hexclude' : e'.uniqueExcludeKind <;>
      simp only [hexclude, hexclude', if_true, Bool.false_eq_true, if_false, List.cons.injEq,
        true_and] at hkey
    · obtain ⟨hkinds, hraws⟩ := framed_inj (fun _ => rfl) lengthBytes_inj hkind hkind' hkey
      exact ⟨hraws, rfl, fun _ => hkinds⟩
    · exact absurd hkey.1 (by decide)
    · exact absurd hkey.1 (by decide)
    · exact ⟨hkey, rfl, nofun⟩
  · intro kind kind' payload payload' hkind hkind' h
    unfold fingerprintInput at h
    rw [List.append_assoc, List.append_assoc _ _ payload'] at h
    obtain ⟨hkinds, hrest⟩ := framed_inj (fun _ => rfl)
      (fun hn hm heq => lengthBytes_inj hn hm (List.reverse_injective heq)) hkind hkind' h
    exact ⟨hkinds, (List.append_inj hrest rfl).2⟩

end Headgate.Core
